import CLexer.Json.Number

/-!
# JSON values

The data model of JSON, with the order that some values have among each other: texts by code
point, numbers and truth values by magnitude, and lists by the first place at which they differ.
-/

set_option autoImplicit false

namespace CLexer.Json

/-- A JSON value. The fields of an object stand in the order of the document, and no name stands
there twice. -/
inductive Value where
  | null
  | bool (b : Bool)
  | number (n : Number)
  | text (s : String)
  | array (elements : List Value)
  | object (fields : List (String × Value))

namespace Value

def int (n : Int) : Value := .number (.integer n)

/-- The characters of a text, if the value is one. -/
def text? : Value → Option String
  | .text s => some s
  | _ => none

/-- Does the value have parts of its own? -/
def isCompound : Value → Bool
  | .array _ => true
  | .object _ => true
  | _ => false

/-- A truth value counts as one or zero among numbers. -/
def number? : Value → Option Number
  | .number n => some n
  | .bool b => some (.integer (if b then 1 else 0))
  | _ => none

def field? (fields : List (String × Value)) (name : String) : Option Value :=
  (fields.find? (·.1 == name)).map (·.2)

/-! ## Sameness -/

mutual

/-- Are the values the same? The order of the fields of an object does not matter. -/
def same : Value → Value → Bool
  | .null, .null => true
  | .text s, .text t => s == t
  | .array vs, .array ws => sameElements vs ws
  | .object fs, .object gs => fs.length == gs.length && sameFields fs gs
  | v, w =>
      match v.number?, w.number? with
      | some m, some n => m.same n
      | _, _ => false

/-- Are lists the same, place by place? -/
def sameElements : List Value → List Value → Bool
  | [], [] => true
  | v :: vs, w :: ws => same v w && sameElements vs ws
  | _, _ => false

/-- Does every field have the same value among other fields? -/
def sameFields : List (String × Value) → List (String × Value) → Bool
  | [], _ => true
  | (name, v) :: fs, gs =>
      (match field? gs name with
        | some w => same v w
        | none => false) && sameFields fs gs

end

/-! ## Order -/

mutual

/-- The order of two values, if they have one. -/
def lt? : Value → Value → Option Bool
  | .text s, .text t => some (decide (s < t))
  | .array vs, .array ws => ltElements? vs ws
  | v, w =>
      match v.number?, w.number? with
      | some m, some n => some (m.lt n)
      | _, _ => none

/-- The order of two lists, if they have one: it is decided where they differ first, and if one
of them ends there, that one is below. -/
def ltElements? : List Value → List Value → Option Bool
  | [], ws => some (!ws.isEmpty)
  | _ :: _, [] => some false
  | v :: vs, w :: ws => if same v w then ltElements? vs ws else lt? v w

end

/-- Are the values ordered, with `v` not above `w`? -/
def le (v w : Value) : Bool :=
  w.lt? v == some false

end Value

end CLexer.Json
