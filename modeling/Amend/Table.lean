/-
Amend.Table — entries by key, in the order the keys first came.

A table is a list of entries. Putting a value at a key that is there keeps
the key's place; a new key comes last. `get?_put` says what a look-up finds
afterwards, `keys_put` which keys there are then and in what order, and
`put_comm` and `put_put_self` when two puts come to the same table.

  §1 Tables and their operations.
  §2 Looking up.
  §3 Keys.
  §4 Putting twice.
  §5 Taking out.
-/

namespace Amend

/-! ## §1 Tables -/

/-- Entries by key, in the order the keys first came. -/
abbrev Table (κ ν : Type) := List (κ × ν)

namespace Table

variable {κ ν : Type} [DecidableEq κ]

/-- The value at a key. -/
def get? (t : Table κ ν) (key : κ) : Option ν := (t.find? fun e => e.1 = key).map Prod.snd

/-- Whether there is an entry for a key. -/
def has (t : Table κ ν) (key : κ) : Bool := (t.get? key).isSome

/-- Puts a value at a key. -/
def put : Table κ ν → κ → ν → Table κ ν
  | [], key, value => [(key, value)]
  | e :: es, key, value => if e.1 = key then (e.1, value) :: es else e :: put es key value

/-- Takes the entry for a key out. -/
def remove (t : Table κ ν) (key : κ) : Table κ ν := t.filter fun e => e.1 ≠ key

/-- The keys, in the order they first came. -/
def keys (t : Table κ ν) : List κ := t.map Prod.fst

/-- The table of a list of entries; of entries with one key the last counts. -/
def ofList (es : List (κ × ν)) : Table κ ν := es.foldl (fun t e => t.put e.1 e.2) []

/-! ## §2 Looking up -/

theorem get?_cons (e : κ × ν) (t : Table κ ν) (key : κ) :
    get? (e :: t) key = if e.1 = key then some e.2 else get? t key := by
  by_cases h : e.1 = key
  · simp [get?, h]
  · simp [get?, h]

theorem get?_put (t : Table κ ν) (key other : κ) (value : ν) :
    (t.put key value).get? other = if key = other then some value else t.get? other := by
  induction t with
  | nil => exact get?_cons (key, value) [] other
  | cons e es ih =>
    rw [put]
    split
    · rename_i h
      rw [get?_cons, get?_cons, h]
      split
      · rfl
      · rfl
    · rename_i h
      rw [get?_cons, get?_cons, ih]
      split
      · rename_i ho
        rw [if_neg fun hkey => h (ho.trans hkey.symm)]
      · rfl

@[simp] theorem get?_put_self (t : Table κ ν) (key : κ) (value : ν) :
    (t.put key value).get? key = some value := by
  rw [get?_put, if_pos rfl]

theorem get?_put_of_ne (t : Table κ ν) {key other : κ} (value : ν) (h : other ≠ key) :
    (t.put key value).get? other = t.get? other := by
  rw [get?_put, if_neg h.symm]

/-- A key that is there is there whatever is put at it. -/
theorem has_put {t : Table κ ν} {key : κ} (h : (t.get? key).isSome) (value : ν) (other : κ) :
    (t.put key value).has other = t.has other := by
  rw [has, has, get?_put]
  split
  · rename_i heq
    rw [← heq, h]
    rfl
  · rfl

/-! ## §3 Keys -/

theorem has_iff_mem_keys {t : Table κ ν} {key : κ} : t.has key = true ↔ key ∈ t.keys := by
  induction t with
  | nil => simp [has, get?, keys]
  | cons e t ih =>
    simp only [has, keys] at ih ⊢
    by_cases h : e.1 = key
    · simp [get?_cons, h]
    · simp [get?_cons, h, ih, Ne.symm h]

theorem put_of_notMem {t : Table κ ν} {key : κ} (h : key ∉ t.keys) (value : ν) :
    t.put key value = t ++ [(key, value)] := by
  induction t with
  | nil => rfl
  | cons e t ih =>
    obtain ⟨hne, hrest⟩ := not_or.mp (mt List.mem_cons.mpr h)
    simp [put, Ne.symm hne, ih hrest]

/-- A key that was there keeps its place; a new one comes last. -/
theorem keys_put (t : Table κ ν) (key : κ) (value : ν) [Decidable (key ∈ t.keys)] :
    (t.put key value).keys = if key ∈ t.keys then t.keys else t.keys ++ [key] := by
  split
  · rename_i h
    induction t with
    | nil => cases h
    | cons e t ih =>
      by_cases he : e.1 = key
      · simp [put, keys, he]
      · have hrest : key ∈ keys t := (List.mem_cons.mp h).resolve_left (Ne.symm he)
        have htail : (put t key value).map Prod.fst = t.map Prod.fst := ih hrest
        simp [put, keys, he, htail]
  · rename_i h
    rw [put_of_notMem h, keys, List.map_append]
    rfl

theorem mem_keys_put {t : Table κ ν} {key other : κ} {value : ν} :
    other ∈ (t.put key value).keys ↔ other = key ∨ other ∈ t.keys := by
  rw [keys_put]
  split
  · rename_i h
    exact ⟨.inr, fun ho => ho.elim (fun heq => heq ▸ h) id⟩
  · rw [List.mem_append, List.mem_singleton, or_comm]

theorem nodup_keys_put {t : Table κ ν} (h : t.keys.Nodup) (key : κ) (value : ν) :
    (t.put key value).keys.Nodup := by
  rw [keys_put]
  split
  · exact h
  · rename_i hnew
    refine List.nodup_append.mpr ⟨h, List.pairwise_singleton .., fun k hk k' hk' heq => ?_⟩
    rw [← List.mem_singleton.mp hk', ← heq] at hnew
    exact hnew hk

/-- Entries of different keys are a table as they are. -/
theorem ofList_eq_self {es : List (κ × ν)} (h : (es.map Prod.fst).Nodup) : ofList es = es := by
  have hfold (es : List (κ × ν)) : ∀ t : Table κ ν, (t.keys ++ es.map Prod.fst).Nodup →
      es.foldl (fun t e => t.put e.1 e.2) t = t ++ es := by
    induction es with
    | nil => simp
    | cons e es ih =>
      intro t ht
      have hfresh : e.1 ∉ t.keys := fun hmem =>
        (List.nodup_append.mp ht).2.2 _ hmem _ List.mem_cons_self rfl
      rw [List.foldl_cons, put_of_notMem hfresh, ih _ (by simpa [keys] using ht)]
      simp
  exact hfold es [] (by simpa [keys] using h)

/-! ## §4 Putting twice -/

theorem put_put_self (t : Table κ ν) (key : κ) (value value' : ν) :
    (t.put key value).put key value' = t.put key value' := by
  induction t with
  | nil => simp [put]
  | cons e t ih =>
    by_cases h : e.1 = key
    · simp [put, h]
    · simp [put, h, ih]

/-- A key that is there keeps its place, so another may be put before or
after. -/
theorem put_comm {t : Table κ ν} {j k : κ} (hne : j ≠ k) (hk : k ∈ t.keys) (w v : ν) :
    (t.put j w).put k v = (t.put k v).put j w := by
  induction t with
  | nil => simp [keys] at hk
  | cons e t ih =>
    by_cases hek : e.1 = k
    · have hej : e.1 ≠ j := fun h => hne (h.symm.trans hek)
      simp [put, hek, hne.symm]
    · have hk' : k ∈ keys t := by
        rcases List.mem_cons.mp hk with h | h
        · exact absurd h.symm hek
        · exact h
      by_cases hej : e.1 = j
      · simp [put, hej, hne]
      · simp [put, hek, hej, ih hk']

/-! ## §5 Taking out -/

theorem remove_cons_of_ne {e : κ × ν} {key : κ} (h : e.1 ≠ key) (t : Table κ ν) :
    remove (e :: t) key = e :: remove t key :=
  List.filter_cons_of_pos (decide_eq_true h)

theorem remove_cons_self {e : κ × ν} {key : κ} (h : e.1 = key) (t : Table κ ν) :
    remove (e :: t) key = remove t key :=
  List.filter_cons_of_neg (by simp [h])

theorem remove_put_self (t : Table κ ν) (key : κ) (value : ν) :
    (t.put key value).remove key = t.remove key := by
  induction t with
  | nil => exact remove_cons_self rfl []
  | cons e t ih =>
    by_cases h : e.1 = key
    · rw [put, if_pos h, remove_cons_self h]
      exact remove_cons_self (e := (e.1, value)) h t
    · rw [put, if_neg h, remove_cons_of_ne h, remove_cons_of_ne h, ih]

theorem remove_of_get?_eq_none {t : Table κ ν} {key : κ} (h : t.get? key = none) :
    t.remove key = t := by
  rw [get?, Option.map_eq_none_iff, List.find?_eq_none] at h
  exact List.filter_eq_self.mpr fun e he => by simpa using h e he

end Table

end Amend
