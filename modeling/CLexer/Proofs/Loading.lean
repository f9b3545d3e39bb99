import CLexer.Proofs.WellFormed
import CLexer.Tables.File
import Mathlib.Data.List.Permutation
import Mathlib.Tactic.MkIffOfInductiveProp

/-!
# Loading tables

A table file may list its words in any order. What is loaded from it is told by what is listed, and
not by where: reserved words and directives are put in order before they are checked, and of
operators and delimiters only the set is kept. So a file is refused for what it lists, never for
the order of it, and two files that list the same make the same tables.

`Lists` is what a file lists once its missing fields are filled in with the standard ones, and
`Lists.Valid` says which lists make tables. The checks go through the lists one after another, and
`Lists.check_listing` says what they come to.
-/

set_option autoImplicit false

namespace CLexer

open CLexer.Tables TableFault

/-! ## Lists of a file -/

/-- The four lists of a table file. All entries are texts, and nobody has checked them. -/
structure Lists where
  keywords : List String
  operators : List String
  delimiters : List String
  directives : List String

/-- An object of which every field names a table and is a list of texts. -/
def HoldsLists (fields : List (String × Json.Value)) : Prop :=
  ∀ f ∈ fields, f.1 ∈ fieldNames ∧ ∃ ss, f.2 = .array (Listing.ofTexts ss)

namespace Lists

/-- The texts that a field lists, or those that stand for a missing field. -/
def ofField (fields : List (String × Json.Value)) (name : String) (standard : List String) :
    List String :=
  match Json.Value.field? fields name with
  | some (.array es) => Listing.texts es
  | _ => standard

def ofFields (fields : List (String × Json.Value)) : Lists where
  keywords := ofField fields "keywords" standardKeywords
  operators := ofField fields "operators" (standardOperators.map charText)
  delimiters := ofField fields "delimiters" (standardDelimiters.map charText)
  directives := ofField fields "directives" standardDirectives

/-- Lists that tables can be made from. -/
@[mk_iff]
structure Valid (l : Lists) : Prop where
  keywords_nodup : l.keywords.Nodup
  directives_nodup : l.directives.Nodup
  operators_single : ∀ s ∈ l.operators, s.toList.length = 1
  delimiters_single : ∀ s ∈ l.delimiters, s.toList.length = 1
  disjoint : ∀ s ∈ l.operators, s ∉ l.delimiters
  directives_named : ∀ s ∈ l.directives, ['#'] <+: s.toList ∧ 2 ≤ s.toList.length

/-- The same is listed, in whatever order; operators and delimiters may be repeated. -/
structure Rearranges (l l' : Lists) : Prop where
  keywords : l.keywords.Perm l'.keywords
  operators : ∀ s, s ∈ l.operators ↔ s ∈ l'.operators
  delimiters : ∀ s, s ∈ l.delimiters ↔ s ∈ l'.delimiters
  directives : l.directives.Perm l'.directives

end Lists

/-- Tables that tell words and characters apart in the same way. Of operators and delimiters only
the set counts. -/
structure Tables.Agree (t t' : Tables) : Prop where
  keywords : t.keywords = t'.keywords
  operators : ∀ c, c ∈ t.operators ↔ c ∈ t'.operators
  delimiters : ∀ c, c ∈ t.delimiters ↔ c ∈ t'.delimiters
  directives : t.directives = t'.directives
  idle : t.idle = t'.idle

/-! ## Putting texts in order -/

/-- Texts in the order of code points. -/
def inOrder (ss : List String) : List String := ss.mergeSort fun a b => decide (a ≤ b)

variable {ss ss' : List String}

theorem inOrder_perm (ss : List String) : (inOrder ss).Perm ss := List.mergeSort_perm _ _

theorem pairwise_inOrder (ss : List String) : (inOrder ss).Pairwise (· ≤ ·) := by
  have htrans : ∀ a b c : String, decide (a ≤ b) = true → decide (b ≤ c) = true →
      decide (a ≤ c) = true := by
    intro a b c hab hbc
    exact decide_eq_true (String.le_trans (of_decide_eq_true hab) (of_decide_eq_true hbc))
  have htotal : ∀ a b : String, (decide (a ≤ b) || decide (b ≤ a)) = true := by
    intro a b
    rw [Bool.or_eq_true, decide_eq_true_eq, decide_eq_true_eq]
    exact String.le_total a b
  exact (List.pairwise_mergeSort htrans htotal ss).imp of_decide_eq_true

/-- There is only one order for what is listed. -/
theorem inOrder_eq_of_perm (h : ss.Perm ss') : inOrder ss = inOrder ss' :=
  (((inOrder_perm ss).trans h).trans (inOrder_perm ss').symm).eq_of_pairwise
    (fun _ _ _ _ => String.le_antisymm) (pairwise_inOrder ss) (pairwise_inOrder ss')

theorem inOrder_of_increasing (h : ss.Pairwise (· < ·)) : inOrder ss = ss :=
  List.mergeSort_of_pairwise (h.imp fun hab => by
    rw [decide_eq_true_eq]
    exact String.not_lt.mp fun hba => String.lt_irrefl _ (String.lt_trans hab hba))

theorem isSorted_of_pairwise (h : ss.Pairwise (· ≤ ·)) : Listing.isSorted ss = true := by
  induction ss with
  | nil => rfl
  | cons a rest ih =>
    obtain ⟨ha, hrest⟩ := List.pairwise_cons.mp h
    cases rest with
    | nil => rfl
    | cons b rest =>
      have hab : ¬ b < a := String.not_lt.mpr (ha b List.mem_cons_self)
      simp only [Listing.isSorted, hab, decide_false, Bool.not_false, Bool.true_and]
      exact ih hrest

theorem isIncreasing_of_pairwise (h : ss.Pairwise (· < ·)) : isIncreasing ss = true := by
  induction ss with
  | nil => rfl
  | cons a rest ih =>
    obtain ⟨ha, hrest⟩ := List.pairwise_cons.mp h
    cases rest with
    | nil => rfl
    | cons b rest =>
      simp only [isIncreasing, ha b List.mem_cons_self, decide_true, Bool.true_and]
      exact ih hrest

/-- Texts in order strictly increase if there is none twice among them. -/
theorem isIncreasing_inOrder_iff : isIncreasing (inOrder ss) = true ↔ ss.Nodup := by
  rw [← (inOrder_perm ss).nodup_iff]
  constructor
  · intro h
    refine (pairwise_of_isIncreasing h).imp ?_
    rintro a b hab rfl
    exact String.lt_irrefl a hab
  · intro hnodup
    refine isIncreasing_of_pairwise (((pairwise_inOrder ss).and hnodup).imp ?_)
    rintro a b ⟨hle, hne⟩
    by_contra hlt
    exact hne (String.le_antisymm hle (String.not_lt.mp hlt))

/-! ## Entries that are texts -/

theorem toList_charText (c : Char) : (charText c).toList = [c] := String.toList_ofList

theorem toList_eq_singleton_iff {s : String} {c : Char} : s.toList = [c] ↔ s = charText c := by
  constructor
  · intro h
    rw [charText, ← h, String.ofList_toList]
  · rintro rfl
    exact toList_charText c

theorem Json.Value.le_text (a b : String) :
    decide (a ≤ b) = Json.Value.le (.text a) (.text b) := by
  have hle : Json.Value.le (.text a) (.text b) = (some (decide (b < a)) == some false) := by
    rw [Json.Value.le, Json.Value.lt?]
  rw [hle, Bool.eq_iff_iff, decide_eq_true_eq, beq_iff_eq, Option.some_inj,
    decide_eq_false_iff_not]
  exact String.not_lt.symm

namespace Listing

@[simp] theorem texts_ofTexts (ss : List String) : texts (ofTexts ss) = ss := by
  induction ss with
  | nil => rfl
  | cons s ss ih => exact congrArg (s :: ·) ih

@[simp] theorem nonTexts_ofTexts (ss : List String) : nonTexts (ofTexts ss) = [] := by
  induction ss with
  | nil => rfl
  | cons s ss ih => exact ih

theorem areOrdered_ofTexts (ss : List String) : areOrdered (ofTexts ss) = true := by
  induction ss with
  | nil => rfl
  | cons s ss ih =>
    have hall : (ofTexts ss).all (fun w => (Json.Value.lt? (.text s) w).isSome) = true := by
      rw [ofTexts, List.all_map]
      exact List.all_eq_true.mpr fun _ _ => rfl
    exact Bool.and_eq_true_iff.mpr ⟨hall, ih⟩

theorem sortedEntries_ofTexts (ss : List String) :
    sortedEntries (ofTexts ss) = .ok (ofTexts (inOrder ss)) := by
  rw [sortedEntries, if_pos (areOrdered_ofTexts ss)]
  refine congrArg Except.ok ?_
  exact (List.map_mergeSort fun a _ b _ => Json.Value.le_text a b).symm

theorem not_any_isCompound (ss : List String) :
    (ofTexts ss).any Json.Value.isCompound = false := by
  rw [ofTexts, List.any_map]
  exact List.any_eq_false.mpr fun _ _ => Bool.false_ne_true

end Listing

/-- The characters are those of the texts, each of which is a single one. -/
structure SetOf (ss : List String) (cs : List Char) : Prop where
  single : ∀ s ∈ ss, s.toList.length = 1
  mem_iff : ∀ c, c ∈ cs ↔ charText c ∈ ss

theorem SetOf.nil : SetOf [] [] := ⟨nofun, fun _ => ⟨nofun, nofun⟩⟩

theorem SetOf.cons {cs : List Char} (h : SetOf ss cs) (c : Char) :
    SetOf (charText c :: ss) (if cs.contains c then cs else c :: cs) := by
  refine ⟨List.forall_mem_cons.mpr ⟨congrArg List.length (toList_charText c), h.single⟩, ?_⟩
  intro d
  have hinj : charText d = charText c ↔ d = c := by
    rw [← toList_eq_singleton_iff, toList_charText, List.cons_eq_cons, and_iff_left rfl]
  rw [List.mem_cons, hinj, ← h.mem_iff d]
  split
  · next hmem =>
    refine ⟨.inr, ?_⟩
    rintro (rfl | hd)
    · exact List.contains_iff_mem.mp hmem
    · exact hd
  · exact List.mem_cons

/-- Whether a text is listed is asked of its one character. -/
theorem SetOf.exists_char_iff {cs : List Char} (h : SetOf ss cs) {s : String} :
    (∃ c, s.toList = [c] ∧ c ∈ cs) ↔ s ∈ ss := by
  constructor
  · rintro ⟨c, hc, hcs⟩
    rw [toList_eq_singleton_iff.mp hc]
    exact (h.mem_iff c).mp hcs
  · intro hs
    obtain ⟨c, hc⟩ := List.length_eq_one_iff.mp (h.single s hs)
    exact ⟨c, hc, (h.mem_iff c).mpr (toList_eq_singleton_iff.mp hc ▸ hs)⟩

/-- Characters are shared if their texts are. -/
theorem SetOf.disjoint_iff {ss' : List String} {cs cs' : List Char} (h : SetOf ss cs)
    (h' : SetOf ss' cs') : sharedChars cs cs' = [] ↔ ∀ s ∈ ss, s ∉ ss' := by
  simp only [sharedChars, List.filter_eq_nil_iff, List.contains_iff_mem]
  constructor
  · intro hcs s hs hs'
    obtain ⟨c, hc, hmem⟩ := h.exists_char_iff.mpr hs
    rw [toList_eq_singleton_iff.mp hc, ← h'.mem_iff] at hs'
    exact hcs c hmem hs'
  · intro hss c hc hc'
    exact hss (charText c) ((h.mem_iff c).mp hc) ((h'.mem_iff c).mp hc')

theorem isDirectiveName_iff {s : String} :
    isDirectiveName s = true ↔ ['#'] <+: s.toList ∧ 2 ≤ s.toList.length := by
  unfold isDirectiveName
  split
  · next c more hs =>
    rw [hs]
    simp
  · next hs =>
    refine iff_of_false Bool.false_ne_true ?_
    rintro ⟨⟨more, hmore⟩, hlength⟩
    cases more with
    | nil =>
      rw [← hmore] at hlength
      exact absurd hlength (by decide)
    | cons c more => exact hs c more hmore.symm

/-! ## The checks -/

/-- The fault is told as a problem of a table, and not as one of its order. -/
def TableFault.BlamesEntries (fault : TableFault) : Prop :=
  ∃ name detail, fault.problem? = some (.table name detail) ∧ detail ≠ "entries must be sorted"

/-- The check has such a result if the condition holds, and otherwise blames the entries. -/
def Decides {α : Type} (condition : Prop) (check : Except TableFault α) (Result : α → Prop) :
    Prop :=
  (condition ∧ ∃ a, check = .ok a ∧ Result a) ∨
    ¬ condition ∧ ∃ fault, check = .error fault ∧ fault.BlamesEntries

namespace Decides

variable {α β : Type} {p q : Prop} {check : Except TableFault α} {P : α → Prop} {Q : β → Prop}

theorem ok {a : α} (hp : p) (ha : P a) : Decides p (.ok a) P := .inl ⟨hp, a, rfl, ha⟩

theorem error {fault : TableFault} (hp : ¬ p) (h : fault.BlamesEntries) :
    Decides p (.error fault) P :=
  .inr ⟨hp, fault, rfl, h⟩

theorem congr (h : Decides p check P) (hpq : p ↔ q) : Decides q check P := by
  rwa [← propext hpq]

/-- A check after another one is made only if that one has a result. -/
theorem bind {next : α → Except TableFault β} (h : Decides p check P)
    (hnext : ∀ a, P a → Decides q (next a) Q) : Decides (p ∧ q) (check >>= next) Q := by
  rcases h with ⟨hp, a, rfl, ha⟩ | ⟨hp, fault, rfl, hfault⟩
  · exact (hnext a ha).congr (and_iff_right hp).symm
  · exact error (fun h => hp h.1) hfault

end Decides

namespace TableFault

theorem append_ne_sorted {start : String}
    (h : ¬ start.toList <+: "entries must be sorted".toList) (rest : String) :
    start ++ rest ≠ "entries must be sorted" := by
  intro heq
  exact h ⟨rest.toList, by rw [← String.toList_append, heq]⟩

theorem blamesEntries_repeated (name : TableName) : (repeated name).BlamesEntries :=
  ⟨name.text, "entries must be unique", rfl, by decide⟩

theorem blamesEntries_notSingle (name : TableName) (entry : String) :
    (notSingle name entry).BlamesEntries := by
  refine ⟨_, _, rfl, ?_⟩
  rw [String.append_assoc]
  exact append_ne_sorted (by decide) _

theorem blamesEntries_shared (cs : List Char) : (shared cs).BlamesEntries := by
  refine ⟨_, _, rfl, ?_⟩
  rw [String.append_assoc]
  exact append_ne_sorted (by decide) _

theorem blamesEntries_unnamed (entry : String) : (unnamed entry).BlamesEntries := by
  refine ⟨_, _, rfl, ?_⟩
  rw [String.append_assoc]
  exact append_ne_sorted (by decide) _

end TableFault

namespace Listing

/-- Texts in order have only to be different. -/
theorem checkIncreasing_inOrder (name : TableName) (ss : List String) :
    Decides ss.Nodup (checkIncreasing name (ofTexts (inOrder ss))) (·.1 = inOrder ss) := by
  have hcheck : checkIncreasing name (ofTexts (inOrder ss)) =
      if h : isIncreasing (inOrder ss) = true then .ok ⟨inOrder ss, h⟩
      else .error (.repeated name) := by
    simp only [checkIncreasing, texts_ofTexts, nonTexts_ofTexts,
      isSorted_of_pairwise (pairwise_inOrder ss), checkNonTexts, List.any_nil, hasTwins,
      Bool.false_eq_true, if_true, if_false]
  rw [hcheck]
  split
  · next h => exact .ok (isIncreasing_inOrder_iff.mp h) rfl
  · next h => exact .error (mt isIncreasing_inOrder_iff.mpr h) (blamesEntries_repeated name)

theorem singles_ofTexts (name : TableName) (ss : List String) :
    Decides (∀ s ∈ ss, s.toList.length = 1) (singles name (ofTexts ss)) (SetOf ss) := by
  induction ss with
  | nil => exact .ok nofun .nil
  | cons s ss ih =>
    have htexts : ofTexts (s :: ss) = .text s :: ofTexts ss := rfl
    by_cases hs : s.toList.length = 1
    · obtain ⟨c, hc⟩ := List.length_eq_one_iff.mp hs
      obtain rfl := toList_eq_singleton_iff.mp hc
      have hsingles : singles name (ofTexts (charText c :: ss)) = (do
          let cs ← singles name (ofTexts ss)
          return if cs.contains c then cs else c :: cs) := by
        simp only [htexts, singles, hc]
      have hrest : (∀ s ∈ ss, s.toList.length = 1) ∧ True ↔
          ∀ s ∈ charText c :: ss, s.toList.length = 1 := by
        rw [and_true, List.forall_mem_cons, and_iff_right hs]
      rw [hsingles]
      exact (ih.bind fun cs hcs => .ok trivial (hcs.cons c)).congr hrest
    · have hfault : singles name (ofTexts (s :: ss)) = .error (.notSingle name s) := by
        rw [htexts, singles]
        split
        · next c hc => exact absurd (congrArg List.length hc) hs
        · rfl
      rw [hfault]
      exact .error (fun h => hs (h s List.mem_cons_self)) (blamesEntries_notSingle name s)

end Listing

namespace Lists

/-- What is checked of the lists of a file: its words are in order by then. -/
def listing (l : Lists) : Listing where
  keywords := Listing.ofTexts (inOrder l.keywords)
  operators := Listing.ofTexts l.operators
  delimiters := Listing.ofTexts l.delimiters
  directives := Listing.ofTexts (inOrder l.directives)

/-- The tables of the lists. -/
structure Makes (l : Lists) (tables : Tables) : Prop where
  keywords : tables.keywords = inOrder l.keywords
  operators : SetOf l.operators tables.operators
  delimiters : SetOf l.delimiters tables.delimiters
  directives : tables.directives = inOrder l.directives
  idle : tables.idle = []

variable {l l' : Lists} {tables tables' : Tables}

/-- The last two checks: no character is in both lists, and all directives are named. -/
theorem assemble_listing {keywords directives : { ws : List String // isIncreasing ws = true }}
    {operators delimiters : List Char} (hkeywords : keywords.1 = inOrder l.keywords)
    (hdirectives : directives.1 = inOrder l.directives) (hoperators : SetOf l.operators operators)
    (hdelimiters : SetOf l.delimiters delimiters) :
    Decides ((∀ s ∈ l.operators, s ∉ l.delimiters) ∧
        ∀ s ∈ l.directives, ['#'] <+: s.toList ∧ 2 ≤ s.toList.length)
      (l.listing.assemble keywords directives operators delimiters) l.Makes := by
  have hnamed : directives.1.all isDirectiveName = true ↔
      ∀ s ∈ l.directives, ['#'] <+: s.toList ∧ 2 ≤ s.toList.length := by
    simp only [hdirectives, List.all_eq_true, (inOrder_perm l.directives).mem_iff,
      isDirectiveName_iff]
  have htexts : Listing.nonTexts l.listing.directives = [] := Listing.nonTexts_ofTexts _
  have hidle : Listing.nonTexts l.listing.keywords = [] := Listing.nonTexts_ofTexts _
  rw [← hoperators.disjoint_iff hdelimiters, ← hnamed]
  unfold Listing.assemble
  split
  · next hshared =>
    rw [htexts]
    by_cases hall : directives.1.all isDirectiveName = true
    · rw [dif_pos hall]
      exact .ok ⟨hshared, hall⟩ ⟨hkeywords, hoperators, hdelimiters, hdirectives, hidle⟩
    · rw [dif_neg hall]
      exact .error (fun h => hall h.2) (blamesEntries_unnamed _)
  · next hshared => exact .error (fun h => hshared h.1) (blamesEntries_shared _)

/-- The checks let valid lists through, and nothing else; and what they say is never that the words
are not in order. -/
theorem check_listing (l : Lists) : Decides l.Valid l.listing.check l.Makes := by
  refine Decides.congr ?_ (valid_iff l).symm
  refine (Listing.checkIncreasing_inOrder .keywords l.keywords).bind fun keywords hkeywords => ?_
  refine (Listing.checkIncreasing_inOrder .directives l.directives).bind
    fun directives hdirectives => ?_
  refine (Listing.singles_ofTexts .operators l.operators).bind fun operators hoperators => ?_
  refine (Listing.singles_ofTexts .delimiters l.delimiters).bind fun delimiters hdelimiters => ?_
  exact assemble_listing hkeywords hdirectives hoperators hdelimiters

theorem Valid.of_rearranges (h : l.Valid) (hr : l.Rearranges l') : l'.Valid where
  keywords_nodup := hr.keywords.nodup_iff.mp h.keywords_nodup
  directives_nodup := hr.directives.nodup_iff.mp h.directives_nodup
  operators_single s hs := h.operators_single s ((hr.operators s).mpr hs)
  delimiters_single s hs := h.delimiters_single s ((hr.delimiters s).mpr hs)
  disjoint s hs hs' := h.disjoint s ((hr.operators s).mpr hs) ((hr.delimiters s).mpr hs')
  directives_named s hs := h.directives_named s (hr.directives.mem_iff.mpr hs)

/-- What is listed is what is found. -/
theorem Makes.isKeyword_iff (h : l.Makes tables) {word : String} :
    tables.isKeyword word = true ↔ word ∈ l.keywords := by
  rw [Tables.isKeyword_iff, h.keywords, (inOrder_perm l.keywords).mem_iff]

theorem Makes.lookUp_iff (h : l.Makes tables) {text : String} :
    tables.lookUp text = .found ↔ text ∈ l.directives := by
  rw [Tables.lookUp_eq_found_iff, h.directives, (inOrder_perm l.directives).mem_iff]

theorem Makes.isOperator_iff (h : l.Makes tables) {s : String} :
    (∃ c, s.toList = [c] ∧ tables.isOperator c = true) ↔ s ∈ l.operators := by
  simp only [Tables.isOperator_iff]
  exact h.operators.exists_char_iff

theorem Makes.isDelimiter_iff (h : l.Makes tables) {s : String} :
    (∃ c, s.toList = [c] ∧ tables.isDelimiter c = true) ↔ s ∈ l.delimiters := by
  simp only [Tables.isDelimiter_iff]
  exact h.delimiters.exists_char_iff

theorem Makes.agree (h : l.Makes tables) (h' : l'.Makes tables') (hr : l.Rearranges l') :
    tables.Agree tables' where
  keywords := by rw [h.keywords, h'.keywords, inOrder_eq_of_perm hr.keywords]
  operators c := by rw [h.operators.mem_iff, h'.operators.mem_iff, hr.operators]
  delimiters c := by rw [h.delimiters.mem_iff, h'.delimiters.mem_iff, hr.delimiters]
  directives := by rw [h.directives, h'.directives, inOrder_eq_of_perm hr.directives]
  idle := by rw [h.idle, h'.idle]

end Lists

/-! ## Documents -/

namespace HoldsLists

variable {fields : List (String × Json.Value)}

/-- A field is missing, or it is the list of its texts. -/
theorem ofField_cases (h : HoldsLists fields) (name : String) (standard : List String) :
    Json.Value.field? fields name = none ∧ Lists.ofField fields name standard = standard ∨
      Json.Value.field? fields name =
        some (.array (Listing.ofTexts (Lists.ofField fields name standard))) := by
  unfold Lists.ofField
  cases hfield : Json.Value.field? fields name with
  | none => exact .inl ⟨rfl, rfl⟩
  | some v =>
    obtain ⟨f, hfind, rfl⟩ := Option.map_eq_some_iff.mp hfield
    obtain ⟨-, ss, hss⟩ := h f (List.mem_of_find?_eq_some hfind)
    refine .inr (congrArg some ?_)
    simp only [hss, Listing.texts_ofTexts]

/-- The standard words are in order as they stand. -/
theorem sortedField (h : HoldsLists fields) (name : String) {standard : List String}
    (hstandard : standard.Pairwise (· < ·)) :
    sortedField fields name (Listing.ofTexts standard) =
      .ok (Listing.ofTexts (inOrder (Lists.ofField fields name standard))) := by
  unfold Tables.sortedField
  rcases h.ofField_cases name standard with ⟨hfield, hmissing⟩ | hfield
  · rw [hfield, hmissing, inOrder_of_increasing hstandard]
  · rw [hfield]
    exact Listing.sortedEntries_ofTexts _

theorem plainField (h : HoldsLists fields) (name : String) (standard : List String) :
    plainField fields name (Listing.ofTexts standard) =
      .ok (Listing.ofTexts (Lists.ofField fields name standard)) := by
  unfold Tables.plainField
  rcases h.ofField_cases name standard with ⟨hfield, hmissing⟩ | hfield
  · rw [hfield, hmissing]
  · rw [hfield]
    have hplain := Listing.not_any_isCompound (Lists.ofField fields name standard)
    simp only [entries, bind, Except.bind, hplain]
    rfl

theorem listing (h : HoldsLists fields) :
    Tables.listing fields = .ok (Lists.ofFields fields).listing := by
  have hkeywords : Tables.sortedField fields "keywords" Listing.standard.keywords = _ :=
    h.sortedField "keywords" Tables.standard.keywords_increase
  have hoperators : Tables.plainField fields "operators" Listing.standard.operators = _ :=
    h.plainField "operators" (standardOperators.map charText)
  have hdelimiters : Tables.plainField fields "delimiters" Listing.standard.delimiters = _ :=
    h.plainField "delimiters" (standardDelimiters.map charText)
  have hdirectives : Tables.sortedField fields "directives" Listing.standard.directives = _ :=
    h.sortedField "directives" Tables.standard.directives_increase
  rw [Tables.listing, hkeywords, hoperators, hdelimiters, hdirectives]
  rfl

/-- A file is loaded by checking its lists. -/
theorem result (h : HoldsLists fields) {document : List Char}
    (hread : Json.read document = .ok (.object fields)) (path : String) :
    (ofFile path document).result = (Lists.ofFields fields).listing.check := by
  have hunknown : Tables.unknownFields fields = [] := by
    have hnone : (fields.map (·.1)).filter (fun n => !fieldNames.contains n) = [] := by
      rw [List.filter_eq_nil_iff]
      intro name hname
      obtain ⟨f, hf, rfl⟩ := List.mem_map.mp hname
      simp [(h f hf).1]
    rw [Tables.unknownFields, hnone]
    exact List.mergeSort_nil
  have hfields : documentFields path document = .ok fields := by
    simp only [documentFields, hread, hunknown]
  simp only [ofFile, hfields, h.listing]
  rfl

end HoldsLists

/-! ## Any order -/

/-- **Loading does not depend on the order of the lists.** A file that holds lists of texts makes
tables exactly if the lists are valid. What they list is then what the tables find, their words
stand in the order of code points, and any file that lists the same makes the same tables. If a
file makes none, that is told as a problem of one of its tables, and never as one of its order. -/
theorem loading_ignores_order {document : List Char} {fields : List (String × Json.Value)}
    (hread : Json.read document = .ok (.object fields)) (hfields : HoldsLists fields)
    (path : String) :
    let lists := Lists.ofFields fields
    ((∃ tables, (ofFile path document).result = .ok tables) ↔ lists.Valid) ∧
    (∀ tables, (ofFile path document).result = .ok tables →
      (tables.keywords.Perm lists.keywords ∧ tables.keywords.Pairwise (· < ·)) ∧
      (tables.directives.Perm lists.directives ∧ tables.directives.Pairwise (· < ·)) ∧
      (∀ s, tables.isKeyword s = true ↔ s ∈ lists.keywords) ∧
      (∀ s, (∃ c, s.toList = [c] ∧ tables.isOperator c = true) ↔ s ∈ lists.operators) ∧
      (∀ s, (∃ c, s.toList = [c] ∧ tables.isDelimiter c = true) ↔ s ∈ lists.delimiters) ∧
      (∀ s, tables.lookUp s = .found ↔ s ∈ lists.directives) ∧
      ∀ (document' : List Char) (fields' : List (String × Json.Value)) (path' : String),
        Json.read document' = .ok (.object fields') → HoldsLists fields' →
        lists.Rearranges (Lists.ofFields fields') →
        ∃ tables', (ofFile path' document').result = .ok tables' ∧ tables.Agree tables') ∧
    ∀ fault, (ofFile path document).result = .error fault →
      ∃ name detail, fault.problem? = some (.table name detail) ∧
        detail ≠ "entries must be sorted" := by
  intro lists
  rw [hfields.result hread path]
  rcases lists.check_listing with
    ⟨hvalid, tables, hcheck, hmakes⟩ | ⟨hinvalid, fault, hcheck, hblames⟩
  · rw [hcheck]
    refine ⟨iff_of_true ⟨tables, rfl⟩ hvalid, ?_, nofun⟩
    rintro _ ⟨⟩
    refine ⟨⟨hmakes.keywords ▸ inOrder_perm _, tables.keywords_increase⟩,
      ⟨hmakes.directives ▸ inOrder_perm _, tables.directives_increase⟩,
      fun _ => hmakes.isKeyword_iff, fun _ => hmakes.isOperator_iff,
      fun _ => hmakes.isDelimiter_iff, fun _ => hmakes.lookUp_iff, ?_⟩
    intro document' fields' path' hread' hfields' hrearranges
    rw [hfields'.result hread' path']
    rcases (Lists.ofFields fields').check_listing with
      ⟨-, tables', hcheck', hmakes'⟩ | ⟨hinvalid, -⟩
    · exact ⟨tables', hcheck', hmakes.agree hmakes' hrearranges⟩
    · exact absurd (hvalid.of_rearranges hrearranges) hinvalid
  · rw [hcheck]
    refine ⟨iff_of_false nofun hinvalid, nofun, ?_⟩
    rintro _ ⟨⟩
    exact hblames

/-- Two files that list two reserved words and two operators, in different orders. -/
theorem loading_ignores_order_of_words :
    let document :=
      "\x7b\"keywords\":[\"b\",\"a\"],\"operators\":[\"+\",\"-\",\"+\"]\x7d".toList
    let document' := "\x7b\"operators\":[\"-\",\"+\"],\"keywords\":[\"a\",\"b\"]\x7d".toList
    ∃ fields fields', (Json.read document = .ok (.object fields) ∧ HoldsLists fields) ∧
      (Json.read document' = .ok (.object fields') ∧ HoldsLists fields') ∧
      (Lists.ofFields fields).Rearranges (Lists.ofFields fields') ∧
      ∃ tables tables', (ofFile "c.json" document).result = .ok tables ∧
        (ofFile "d.json" document').result = .ok tables' ∧ tables.Agree tables' ∧
        tables.isKeyword "b" = true ∧ tables.lookUp "#c" ≠ .found := by
  intro document document'
  let fields := [("keywords", Json.Value.array [.text "b", .text "a"]),
    ("operators", .array [.text "+", .text "-", .text "+"])]
  let fields' := [("operators", Json.Value.array [.text "-", .text "+"]),
    ("keywords", .array [.text "a", .text "b"])]
  have hread : Json.read document = .ok (.object fields) := by
    unfold document fields
    cbv
  have hread' : Json.read document' = .ok (.object fields') := by
    unfold document' fields'
    cbv
  have hfields : HoldsLists fields :=
    List.forall_mem_cons.mpr ⟨⟨by decide, ["b", "a"], rfl⟩,
      List.forall_mem_singleton.mpr ⟨by decide, ["+", "-", "+"], rfl⟩⟩
  have hfields' : HoldsLists fields' :=
    List.forall_mem_cons.mpr ⟨⟨by decide, ["-", "+"], rfl⟩,
      List.forall_mem_singleton.mpr ⟨by decide, ["a", "b"], rfl⟩⟩
  have hlists : Lists.ofFields fields = ⟨["b", "a"], ["+", "-", "+"],
      standardDelimiters.map charText, standardDirectives⟩ := rfl
  have hlists' : Lists.ofFields fields' = ⟨["a", "b"], ["-", "+"],
      standardDelimiters.map charText, standardDirectives⟩ := rfl
  have hvalid : (Lists.ofFields fields).Valid := by
    rw [hlists]
    exact ⟨by decide, by decide, by decide, by decide, by decide, by decide⟩
  have hrearranges : (Lists.ofFields fields).Rearranges (Lists.ofFields fields') := by
    rw [hlists, hlists']
    refine ⟨by decide, fun s => ?_, fun s => Iff.rfl, .rfl⟩
    simp [or_comm]
  obtain ⟨hloads, hfinds, -⟩ := loading_ignores_order hread hfields "c.json"
  obtain ⟨tables, htables⟩ := hloads.mpr hvalid
  obtain ⟨-, -, hkeyword, -, -, hdirective, hagree⟩ := hfinds tables htables
  obtain ⟨tables', htables', hsame⟩ :=
    hagree document' fields' "d.json" hread' hfields' hrearranges
  refine ⟨fields, fields', ⟨hread, hfields⟩, ⟨hread', hfields'⟩, hrearranges, tables, tables',
    htables, htables', hsame, (hkeyword "b").mpr ?_, fun hfound => ?_⟩
  · rw [hlists]
    exact List.mem_cons_self
  · have hmem := (hdirective "#c").mp hfound
    rw [hlists] at hmem
    exact absurd hmem (by decide)

end CLexer
