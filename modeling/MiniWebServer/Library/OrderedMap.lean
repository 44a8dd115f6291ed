import Mathlib

/-!
# Maps whose entries are kept in the order of their keys

An `OrderedMap` is the list of its entries together with the proof that the
keys increase. This is what an iteration over a `std::map` shows.
-/

universe u v

/-- A finite map, as the list of its entries by increasing key. -/
@[ext]
structure OrderedMap (Key : Type u) (Value : Type v) [LinearOrder Key] where
  entries : List (Key × Value)
  increasing : entries.Pairwise fun first second => first.1 < second.1

namespace OrderedMap

variable {Key : Type u} {Value : Type v} [LinearOrder Key]

/-- The map without entries. -/
def empty : OrderedMap Key Value where
  entries := []
  increasing := List.Pairwise.nil

/-- Put an entry at its place, over an entry with the same key. -/
def insertEntry (key : Key) (value : Value) : List (Key × Value) → List (Key × Value)
  | [] => [(key, value)]
  | entry :: rest =>
      if key < entry.1 then (key, value) :: entry :: rest
      else if key = entry.1 then (key, value) :: rest
      else entry :: insertEntry key value rest

theorem mem_insertEntry {key : Key} {value : Value} {entries : List (Key × Value)}
    (increasing : entries.Pairwise fun first second => first.1 < second.1)
    {entry : Key × Value} :
    entry ∈ insertEntry key value entries ↔
      entry = (key, value) ∨ entry ∈ entries ∧ entry.1 ≠ key := by
  induction entries with
  | nil => simp [insertEntry]
  | cons first rest ih =>
      have later := (List.pairwise_cons.mp increasing).1
      have known := ih (List.pairwise_cons.mp increasing).2
      unfold insertEntry
      split
      · next before =>
        have differs : ∀ other ∈ first :: rest, other.1 ≠ key := by
          intro other member
          rcases List.mem_cons.mp member with rfl | inRest
          · exact before.ne'
          · exact (before.trans (later other inRest)).ne'
        rw [List.mem_cons]
        exact or_congr_right ⟨fun member => ⟨member, differs entry member⟩, And.left⟩
      · split
        · next _ same =>
          have differs : ∀ other ∈ rest, other.1 ≠ key := by
            intro other inRest
            rw [same]
            exact (later other inRest).ne'
          rw [List.mem_cons, List.mem_cons]
          constructor
          · rintro (rfl | inRest)
            · exact .inl rfl
            · exact .inr ⟨.inr inRest, differs entry inRest⟩
          · rintro (rfl | ⟨rfl | inRest, other⟩)
            · exact .inl rfl
            · exact absurd same.symm other
            · exact .inr inRest
        · next _ other =>
          rw [List.mem_cons, List.mem_cons, known]
          constructor
          · rintro (rfl | rfl | ⟨inRest, differs⟩)
            · exact .inr ⟨.inl rfl, fun same => other same.symm⟩
            · exact .inl rfl
            · exact .inr ⟨.inr inRest, differs⟩
          · rintro (rfl | ⟨rfl | inRest, differs⟩)
            · exact .inr (.inl rfl)
            · exact .inl rfl
            · exact .inr (.inr ⟨inRest, differs⟩)

/-- `map[key] = value`. -/
def insert (map : OrderedMap Key Value) (key : Key) (value : Value) : OrderedMap Key Value where
  entries := insertEntry key value map.entries
  increasing := by
    rcases map with ⟨entries, increasing⟩
    simp only
    induction entries with
    | nil => exact List.pairwise_singleton _ _
    | cons first rest ih =>
        have later := (List.pairwise_cons.mp increasing).1
        have tail := (List.pairwise_cons.mp increasing).2
        unfold insertEntry
        split
        · next before =>
          refine List.pairwise_cons.mpr ⟨?_, increasing⟩
          intro other member
          rcases List.mem_cons.mp member with rfl | inRest
          · exact before
          · exact before.trans (later other inRest)
        · split
          · next _ same =>
            subst same
            exact List.pairwise_cons.mpr ⟨later, tail⟩
          · next notBefore other =>
            refine List.pairwise_cons.mpr ⟨?_, ih tail⟩
            intro entry member
            rcases (mem_insertEntry tail).mp member with rfl | ⟨inRest, _⟩
            · exact lt_of_le_of_ne (not_lt.mp notBefore) (fun same => other same.symm)
            · exact later entry inRest

/-- `map.erase(key)`. -/
def erase (map : OrderedMap Key Value) (key : Key) : OrderedMap Key Value where
  entries := map.entries.filter fun entry => entry.1 ≠ key
  increasing := map.increasing.filter _

/-- The value at a key, if the key has an entry. -/
def find? (map : OrderedMap Key Value) (key : Key) : Option Value :=
  (map.entries.find? fun entry => entry.1 = key).map Prod.snd

/-- The entry with the least key, `*map.begin()`. -/
def first? (map : OrderedMap Key Value) : Option (Key × Value) :=
  map.entries.head?

@[simp]
theorem mem_entries_insert {map : OrderedMap Key Value} {key : Key} {value : Value}
    {entry : Key × Value} :
    entry ∈ (map.insert key value).entries ↔
      entry = (key, value) ∨ entry ∈ map.entries ∧ entry.1 ≠ key :=
  mem_insertEntry map.increasing

@[simp]
theorem mem_entries_erase {map : OrderedMap Key Value} {key : Key} {entry : Key × Value} :
    entry ∈ (map.erase key).entries ↔ entry ∈ map.entries ∧ entry.1 ≠ key := by
  simp [erase]

theorem nodup_keys (map : OrderedMap Key Value) : (map.entries.map Prod.fst).Nodup :=
  List.pairwise_map.mpr (map.increasing.imp fun less => less.ne)

/-- A key has one entry at most. -/
theorem eq_of_mem_entries {map : OrderedMap Key Value} {first second : Key × Value}
    (firstMem : first ∈ map.entries) (secondMem : second ∈ map.entries)
    (same : first.1 = second.1) : first = second :=
  List.inj_on_of_nodup_map map.nodup_keys firstMem secondMem same

/-- What relates the entries in the order of the list relates them in the order of
their keys. -/
theorem rel_of_pairwise {map : OrderedMap Key Value}
    {Related : Key × Value → Key × Value → Prop} (pairwise : map.entries.Pairwise Related)
    {first second : Key × Value} (firstMem : first ∈ map.entries)
    (secondMem : second ∈ map.entries) (less : first.1 < second.1) : Related first second := by
  let Ordered (first second : Key × Value) : Prop :=
    (first.1 < second.1 → Related first second) ∧ (second.1 < first.1 → Related second first)
  have symmetric : Std.Symm Ordered := ⟨fun _ _ known => ⟨known.2, known.1⟩⟩
  have ordered : map.entries.Pairwise Ordered := by
    refine (pairwise.and map.increasing).imp ?_
    exact fun known => ⟨fun _ => known.1, fun greater => absurd greater known.2.not_gt⟩
  have differ : first ≠ second := fun same => less.ne (congrArg Prod.fst same)
  exact (ordered.forall firstMem secondMem differ).1 less

theorem find?_eq_some_iff {map : OrderedMap Key Value} {key : Key} {value : Value} :
    map.find? key = some value ↔ (key, value) ∈ map.entries := by
  constructor
  · intro found
    rcases Option.map_eq_some_iff.mp found with ⟨entry, entryFound, rfl⟩
    have same : entry.1 = key := by simpa using List.find?_some entryFound
    subst same
    exact List.mem_of_find?_eq_some entryFound
  · intro member
    cases found : map.entries.find? fun entry => entry.1 = key with
    | none =>
        have absent := List.find?_eq_none.mp found _ member
        simp at absent
    | some entry =>
        have same : entry.1 = key := by simpa using List.find?_some found
        have entryEq := eq_of_mem_entries (List.mem_of_find?_eq_some found) member same
        simp [find?, found, entryEq]

theorem find?_eq_none_iff {map : OrderedMap Key Value} {key : Key} :
    map.find? key = none ↔ ∀ entry ∈ map.entries, entry.1 ≠ key := by
  simp [find?]

/-- Erasing a key that has no entry changes nothing. -/
theorem erase_of_find?_eq_none {map : OrderedMap Key Value} {key : Key}
    (absent : map.find? key = none) : map.erase key = map := by
  ext1
  rw [erase, List.filter_eq_self]
  intro entry member
  simpa using find?_eq_none_iff.mp absent entry member

theorem filter_insertEntry (key : Key) (value : Value) (entries : List (Key × Value)) :
    (insertEntry key value entries).filter (fun entry => entry.1 ≠ key) =
      entries.filter fun entry => entry.1 ≠ key := by
  induction entries with
  | nil => simp [insertEntry]
  | cons first rest ih =>
      unfold insertEntry
      split
      · simp
      · split
        · next _ same => simp [same]
        · rw [List.filter_cons, ih, List.filter_cons]

/-- A key beyond all others comes last. -/
theorem entries_insert_of_lt {map : OrderedMap Key Value} {key : Key}
    (beyond : ∀ entry ∈ map.entries, entry.1 < key) (value : Value) :
    (map.insert key value).entries = map.entries ++ [(key, value)] := by
  rcases map with ⟨entries, increasing⟩
  simp only [insert] at beyond ⊢
  clear increasing
  induction entries with
  | nil => rfl
  | cons first rest ih =>
      have less := beyond first (List.mem_cons_self ..)
      rw [insertEntry, if_neg less.not_gt, if_neg less.ne', List.cons_append,
        ih fun entry member => beyond entry (List.mem_cons_of_mem first member)]

/-- A key before all others comes first. -/
theorem entries_insert_of_le {map : OrderedMap Key Value} {key : Key}
    (least : ∀ entry ∈ map.entries, key ≤ entry.1) (value : Value) :
    ∃ rest, (map.insert key value).entries = (key, value) :: rest := by
  rcases map with ⟨entries, increasing⟩
  simp only [insert] at least ⊢
  cases entries with
  | nil => exact ⟨[], rfl⟩
  | cons first rest =>
      rcases (least first (List.mem_cons_self ..)).lt_or_eq with less | same
      · exact ⟨first :: rest, by rw [insertEntry, if_pos less]⟩
      · exact ⟨rest, by rw [insertEntry, if_neg same.not_lt, if_pos same]⟩

@[simp]
theorem erase_erase (map : OrderedMap Key Value) (key : Key) :
    (map.erase key).erase key = map.erase key := by
  ext1
  simp [erase]

/-- What was put at a key is gone when the key is erased. -/
theorem erase_insert (map : OrderedMap Key Value) (key : Key) (value : Value) :
    (map.insert key value).erase key = map.erase key := by
  ext1
  exact filter_insertEntry key value map.entries

/-- A scan of the entries up to the first that fails the test leaves the others. -/
theorem filter_notMem_takeWhile (map : OrderedMap Key Value) (test : Key × Value → Bool) :
    (map.entries.filter fun entry => entry.1 ∉ (map.entries.takeWhile test).map Prod.fst) =
      map.entries.dropWhile test := by
  have distinct := map.nodup_keys
  conv at distinct => rw [← List.takeWhile_append_dropWhile (p := test) (l := map.entries)]
  conv_lhs => rw [← List.takeWhile_append_dropWhile (p := test) (l := map.entries)]
  rw [List.map_append, List.nodup_append] at distinct
  rw [List.filter_append, List.filter_eq_nil_iff.mpr, List.nil_append, List.filter_eq_self]
  · intro entry member
    rw [decide_eq_true_eq, List.takeWhile_append_dropWhile]
    intro earlier
    exact distinct.2.2 _ earlier _ (List.mem_map_of_mem member) rfl
  · intro entry member
    rw [decide_eq_true_eq, not_not, List.takeWhile_append_dropWhile]
    exact List.mem_map_of_mem member

/-- A scan that stops at the first failure finds what a full scan does, where no
entry behind a failure passes the test. -/
theorem takeWhile_eq_filter {α : Type u} {test : α → Bool} {entries : List α}
    (closed : entries.Pairwise fun first second => test second = true → test first = true) :
    entries.takeWhile test = entries.filter test ∧
      entries.dropWhile test = entries.filter fun entry => !test entry := by
  induction entries with
  | nil => exact ⟨rfl, rfl⟩
  | cons first rest ih =>
      rcases List.pairwise_cons.mp closed with ⟨before, later⟩
      cases passes : test first with
      | true =>
          rcases ih later with ⟨taken, dropped⟩
          simp [passes, taken, dropped]
      | false =>
          have failing : ∀ entry ∈ rest, test entry = false := by
            intro entry member
            rw [Bool.eq_false_iff]
            intro passesLater
            exact Bool.false_ne_true (passes.symm.trans (before entry member passesLater))
          constructor
          · rw [List.takeWhile_cons_of_neg (by simp [passes]), eq_comm, List.filter_eq_nil_iff]
            intro entry member
            rcases List.mem_cons.mp member with rfl | inRest
            · simp [passes]
            · simp [failing entry inRest]
          · rw [List.dropWhile_cons_of_neg (by simp [passes]), eq_comm, List.filter_eq_self]
            intro entry member
            rcases List.mem_cons.mp member with rfl | inRest
            · simp [passes]
            · simp [failing entry inRest]

end OrderedMap
