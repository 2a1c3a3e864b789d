import Mathlib.Data.List.Basic
import Mathlib.Data.List.Lex
import Mathlib.Data.List.Nodup
import Mathlib.Data.Prod.Lex

/-!
# Keyed tables

A table of a relational database as the list of its rows, oldest first. A key
selects one row at most, as long as the table is only changed under its
constraint. Byte strings are ordered as `BLOB`s and `Vec<u8>` are, by their
first difference.
-/

instance linearOrderUInt8 : LinearOrder UInt8 where
  le_refl _ := UInt8.le_refl _
  le_trans _ _ _ := UInt8.le_trans
  lt_iff_le_not_ge a b := by
    simp only [UInt8.le_iff_toNat_le, UInt8.lt_iff_toNat_lt]
    omega
  le_antisymm _ _ := UInt8.le_antisymm
  le_total := UInt8.le_total
  toDecidableLE := inferInstance
  toDecidableLT := inferInstance
  toDecidableEq := inferInstance

namespace Table

variable {α κ : Type*}

theorem nodup_append_row {column : α → κ} {rows : List α} {row : α}
    (h : (rows.map column).Nodup)
    (hnew : ∀ other ∈ rows, column other ≠ column row) :
    ((rows ++ [row]).map column).Nodup := by
  rw [List.map_append, List.nodup_append]
  refine ⟨h, by simp, ?_⟩
  intro a ha b hb
  obtain ⟨other, hother, rfl⟩ := List.mem_map.mp ha
  rw [List.map_singleton, List.mem_singleton] at hb
  rw [hb]
  exact hnew other hother

variable [DecidableEq κ] {key : α → κ} {rows : List α} {k : κ} {row : α}

/-- The row with this key. -/
def find (key : α → κ) (rows : List α) (k : κ) : Option α :=
  rows.find? fun row => key row = k

/-- `UPDATE` of the row with this key. -/
def update (key : α → κ) (k : κ) (change : α → α) (rows : List α) : List α :=
  rows.map fun row => if key row = k then change row else row

theorem find_eq_none : find key rows k = none ↔ ∀ row ∈ rows, key row ≠ k := by
  simp [find]

theorem mem_of_find (h : find key rows k = some row) : row ∈ rows ∧ key row = k :=
  ⟨List.mem_of_find?_eq_some h, by simpa using List.find?_some h⟩

theorem find_of_mem (hkeys : (rows.map key).Nodup) (hrow : row ∈ rows) :
    find key rows (key row) = some row := by
  cases hfind : find key rows (key row) with
  | none => exact absurd rfl (find_eq_none.mp hfind row hrow)
  | some found =>
      obtain ⟨hfound, hkey⟩ := mem_of_find hfind
      rw [List.inj_on_of_nodup_map hkeys hfound hrow hkey]

theorem mem_update {change : α → α} :
    row ∈ update key k change rows ↔
      (row ∈ rows ∧ key row ≠ k) ∨ ∃ old ∈ rows, key old = k ∧ row = change old := by
  unfold update
  rw [List.mem_map]
  constructor
  · rintro ⟨old, hold, rfl⟩
    by_cases hkey : key old = k
    · rw [if_pos hkey]
      exact .inr ⟨old, hold, hkey, rfl⟩
    · rw [if_neg hkey]
      exact .inl ⟨hold, hkey⟩
  · rintro (⟨hrow, hkey⟩ | ⟨old, hold, hkey, rfl⟩)
    · exact ⟨row, hrow, if_neg hkey⟩
    · exact ⟨old, hold, if_pos hkey⟩

/-- A column that the update does not touch. -/
theorem map_update {β : Type*} {column : α → β} {change : α → α}
    (h : ∀ row, column (change row) = column row) :
    (update key k change rows).map column = rows.map column := by
  unfold update
  rw [List.map_map]
  refine List.map_congr_left fun row _ => ?_
  rw [Function.comp_apply]
  split
  · exact h row
  · rfl

theorem countP_update {change : α → α} {p : α → Bool} (h : ∀ row, p (change row) = p row) :
    (update key k change rows).countP p = rows.countP p := by
  unfold update
  rw [List.countP_map]
  refine List.countP_congr fun row _ => ?_
  rw [Function.comp_apply]
  split
  · rw [h row]
  · rfl

/-- A row that a query passes over before and after. -/
theorem filter_update {change : α → α} {p : α → Bool}
    (h : ∀ row ∈ rows, key row = k → p row = false ∧ p (change row) = false) :
    (update key k change rows).filter p = rows.filter p := by
  induction rows with
  | nil => rfl
  | cons row rest ih =>
      have hrest := ih fun other hother => h other (List.mem_cons_of_mem _ hother)
      unfold update at hrest ⊢
      rw [List.map_cons]
      by_cases hkey : key row = k
      · obtain ⟨hold, hnew⟩ := h row List.mem_cons_self hkey
        rw [if_pos hkey, List.filter_cons_of_neg (by simp [hnew]),
          List.filter_cons_of_neg (by simp [hold]), hrest]
      · rw [if_neg hkey, List.filter_cons, List.filter_cons, hrest]

/-- One row has the key. -/
theorem countP_key (hkeys : (rows.map key).Nodup) (hk : k ∈ rows.map key) :
    (rows.countP fun row => key row = k) = 1 := by
  have hcount := List.count_eq_one_of_mem hkeys hk
  rw [List.count, List.countP_map] at hcount
  rw [← hcount]
  refine List.countP_congr fun row _ => ?_
  simp

/-- The row of a key after an update that keeps the keys. -/
theorem find_update {change : α → α} {k' : κ} (h : ∀ row, key (change row) = key row) :
    find key (update key k change rows) k' =
      if k' = k then (find key rows k').map change else find key rows k' := by
  induction rows with
  | nil => simp [find, update]
  | cons row rest ih =>
      unfold find update at ih ⊢
      have hkey : key (if key row = k then change row else row) = key row := by
        split
        · exact h row
        · rfl
      rw [List.map_cons]
      by_cases hk : key row = k'
      · have hfound : (row :: rest).find? (fun row => key row = k') = some row :=
          List.find?_cons_of_pos (decide_eq_true hk)
        rw [List.find?_cons_of_pos (by rw [hkey]; exact decide_eq_true hk), hfound, hk,
          Option.map_some]
        split <;> rfl
      · have hpassed : (row :: rest).find? (fun row => key row = k') =
            rest.find? fun row => key row = k' := List.find?_cons_of_neg (by simpa using hk)
        rw [List.find?_cons_of_neg (by rw [hkey]; simpa using hk), hpassed, ih]

theorem find_append_row {k' : κ} (hnew : find key rows (key row) = none) :
    find key (rows ++ [row]) k' = if k' = key row then some row else find key rows k' := by
  unfold find at hnew ⊢
  rw [List.find?_append, List.find?_singleton]
  by_cases hk : k' = key row
  · rw [hk, hnew]
    simp
  · simp [hk, Ne.symm hk]

/-! ## Rows that a `DELETE` leaves -/

section Delete

variable {β : Type*} {column : α → β} {touched p : α → Prop} {q : β → Prop}
  [DecidablePred touched] [DecidablePred p] [DecidablePred q]

/-- A query that reads only rows the `DELETE` looks at. -/
theorem map_filter_of_touched (h : ∀ row, p row → touched row) :
    ((rows.filter fun row => ¬(touched row ∧ q (column row))).filter fun row => p row).map
        column =
      ((rows.filter fun row => p row).map column).filter fun x => ¬q x := by
  rw [List.filter_filter, List.filter_map, List.filter_filter]
  congr 1
  refine List.filter_congr fun row _ => ?_
  rw [Bool.eq_iff_iff, Bool.and_eq_true, Bool.and_eq_true, Function.comp_apply,
    decide_eq_true_eq, decide_eq_true_eq, decide_eq_true_eq]
  constructor
  · rintro ⟨hp, hkept⟩
    exact ⟨fun hq => hkept ⟨h row hp, hq⟩, hp⟩
  · rintro ⟨hq, hp⟩
    exact ⟨hp, fun hdeleted => hq hdeleted.2⟩

/-- A query that reads none of them. -/
theorem filter_of_untouched {r : α → Prop} [DecidablePred r]
    (h : ∀ row, p row → r row) :
    (rows.filter fun row => r row).filter (fun row => p row) = rows.filter fun row => p row := by
  rw [List.filter_filter]
  refine List.filter_congr fun row _ => ?_
  rw [Bool.eq_iff_iff, Bool.and_eq_true, decide_eq_true_eq, decide_eq_true_eq]
  exact ⟨And.left, fun hp => ⟨hp, h row hp⟩⟩

end Delete

/-! ## Rows that are nothing but their key -/

section Insert

variable [DecidableEq α] {new : List α}

/-- `INSERT` of several rows, each of which may be there already. -/
def insertAll (rows new : List α) : Option (List α) :=
  new.foldlM (fun rows row => if row ∈ rows then none else some (rows ++ [row])) rows

/-- `INSERT OR IGNORE` of several rows. -/
def insertOrIgnoreAll (rows new : List α) : List α :=
  new.foldl (fun rows row => if row ∈ rows then rows else rows ++ [row]) rows

theorem eq_append_of_insertAll {rows' : List α} (h : insertAll rows new = some rows') :
    rows' = rows ++ new := by
  induction new generalizing rows with
  | nil =>
      cases h
      exact (List.append_nil _).symm
  | cons row rest ih =>
      rw [insertAll, List.foldlM_cons] at h
      split at h
      · cases h
      · rw [ih h, List.append_assoc, List.singleton_append]

theorem insertOrIgnoreAll_of_new (hnew : new.Nodup) (hrows : ∀ row ∈ new, row ∉ rows) :
    insertOrIgnoreAll rows new = rows ++ new := by
  induction new generalizing rows with
  | nil => exact (List.append_nil _).symm
  | cons row rest ih =>
      obtain ⟨hrow, hrest⟩ := List.nodup_cons.mp hnew
      rw [insertOrIgnoreAll, List.foldl_cons, if_neg (hrows row List.mem_cons_self)]
      have h : insertOrIgnoreAll (rows ++ [row]) rest = rows ++ [row] ++ rest := by
        refine ih hrest fun other hother hmem => ?_
        rcases List.mem_append.mp hmem with hold | hsame
        · exact hrows other (List.mem_cons_of_mem _ hother) hold
        · exact hrow (List.mem_singleton.mp hsame ▸ hother)
      rw [insertOrIgnoreAll] at h
      rw [h, List.append_assoc, List.singleton_append]

end Insert

end Table
