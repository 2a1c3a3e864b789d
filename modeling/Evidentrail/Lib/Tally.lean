import Mathlib.Data.List.Basic
import Mathlib.Data.List.Nodup
import Mathlib.Order.Bounds.Basic

/-!
# Running counts and extremes

Records are put under labels, one row for each record that has been put
somewhere. A tally follows one label as rows are added, in whatever order the
records come: how many there are, and the least and the greatest of their keys.
-/

/-! ## Extremes -/

section Extremes

variable {γ : Type*} [LinearOrder γ] {s : Set γ} {a b : γ}

theorem IsLeast.replace (h : IsLeast s b) : IsLeast (insert a s) (if a < b then a else b) := by
  have hmin : (if a < b then a else b) = min a b := by
    split
    · rename_i hlt
      exact (min_eq_left hlt.le).symm
    · rename_i hlt
      exact (min_eq_right (not_lt.mp hlt)).symm
  rw [hmin]
  exact h.insert a

theorem IsGreatest.replace (h : IsGreatest s b) :
    IsGreatest (insert a s) (if a > b then a else b) := by
  have hmax : (if a > b then a else b) = max a b := by
    split
    · rename_i hlt
      exact (max_eq_left hlt.le).symm
    · rename_i hlt
      exact (max_eq_right (not_lt.mp hlt)).symm
  rw [hmax]
  exact h.insert a

/-- The least element of a set is that of a part of it with something below
every element. -/
theorem IsLeast.of_coinitial {part : Set γ} (h : IsLeast s b) (hpart : part ⊆ s)
    (hbelow : ∀ x ∈ s, ∃ y ∈ part, y ≤ x) : IsLeast part b := by
  obtain ⟨y, hy, hle⟩ := hbelow b h.1
  have hb : y = b := le_antisymm hle (h.2 (hpart hy))
  exact ⟨hb ▸ hy, fun x hx => h.2 (hpart hx)⟩

theorem IsGreatest.of_cofinal {part : Set γ} (h : IsGreatest s b) (hpart : part ⊆ s)
    (habove : ∀ x ∈ s, ∃ y ∈ part, x ≤ y) : IsGreatest part b := by
  obtain ⟨y, hy, hle⟩ := habove b h.1
  have hb : y = b := le_antisymm (h.2 (hpart hy)) hle
  exact ⟨hb ▸ hy, fun x hx => h.2 (hpart hx)⟩

/-- The least element of a part is that of the whole, if something of the part is below every
element. -/
theorem IsLeast.of_part {part : Set γ} (h : IsLeast part b) (hpart : part ⊆ s)
    (hbelow : ∀ x ∈ s, ∃ y ∈ part, y ≤ x) : IsLeast s b := by
  refine ⟨hpart h.1, fun x hx => ?_⟩
  obtain ⟨y, hy, hle⟩ := hbelow x hx
  exact (h.2 hy).trans hle

theorem IsGreatest.of_part {part : Set γ} (h : IsGreatest part b) (hpart : part ⊆ s)
    (habove : ∀ x ∈ s, ∃ y ∈ part, x ≤ y) : IsGreatest s b := by
  refine ⟨hpart h.1, fun x hx => ?_⟩
  obtain ⟨y, hy, hle⟩ := habove x hx
  exact hle.trans (h.2 hy)

end Extremes

/-! ## Tallies -/

structure Tally (γ : Type*) where
  count : Nat
  first : γ
  last : γ
deriving DecidableEq

namespace Tally

variable {γ : Type*} [LinearOrder γ] {tally : Tally γ} {count : Nat} {keys : Set γ} {key : γ}

def one (key : γ) : Tally γ := ⟨1, key, key⟩

def add (tally : Tally γ) (key : γ) : Tally γ where
  count := tally.count + 1
  first := if key < tally.first then key else tally.first
  last := if key > tally.last then key else tally.last

/-- The count is right, and the extremes are those of the keys. -/
structure Describes (tally : Tally γ) (count : Nat) (keys : Set γ) : Prop where
  count_eq : tally.count = count
  first_least : IsLeast keys tally.first
  last_greatest : IsGreatest keys tally.last

/-- The number and the keys fix a tally. -/
theorem Describes.unique {other : Tally γ} (h : tally.Describes count keys)
    (hother : other.Describes count keys) : tally = other := by
  cases tally
  cases other
  obtain rfl := h.count_eq.trans hother.count_eq.symm
  obtain rfl := h.first_least.unique hother.first_least
  obtain rfl := h.last_greatest.unique hother.last_greatest
  rfl

theorem describes_one (key : γ) : (one key).Describes 1 {key} :=
  ⟨rfl, isLeast_singleton, isGreatest_singleton⟩

theorem Describes.add (h : tally.Describes count keys) (key : γ) :
    (tally.add key).Describes (count + 1) (insert key keys) :=
  ⟨congrArg (· + 1) h.count_eq, h.first_least.replace, h.last_greatest.replace⟩

end Tally

/-! ## Rows under labels -/

/-- How records of type `ρ` are put under labels by rows of type `α`. -/
structure Labelling (ρ α ι γ κ : Type*) where
  id : ρ → ι
  key : ρ → γ
  rowId : α → ι
  label : α → κ

namespace Labelling

variable {ρ α ι γ κ : Type*} {L : Labelling ρ α ι γ κ} {records : List ρ} {rows : List α}
  {record : ρ} {row : α} {label : κ}

/-- The keys of the records under one label. -/
def keys (L : Labelling ρ α ι γ κ) (records : List ρ) (rows : List α) (label : κ) : Set γ :=
  {key | ∃ record ∈ records, ∃ row ∈ rows,
    L.rowId row = L.id record ∧ L.label row = label ∧ L.key record = key}

/-- Every row is about one of the records. -/
def Covered (L : Labelling ρ α ι γ κ) (records : List ρ) (rows : List α) : Prop :=
  ∀ row ∈ rows, ∃ record ∈ records, L.id record = L.rowId row

theorem keys_append (hids : (records.map L.id).Nodup) (hrecord : record ∈ records)
    (hrow : L.rowId row = L.id record) :
    L.keys records (rows ++ [row]) (L.label row) =
      insert (L.key record) (L.keys records rows (L.label row)) := by
  ext key
  constructor
  · rintro ⟨found, hfound, candidate, hcandidate, hid, hlabel, rfl⟩
    rcases List.mem_append.mp hcandidate with hold | hnew
    · exact .inr ⟨found, hfound, candidate, hold, hid, hlabel, rfl⟩
    · rw [List.mem_singleton.mp hnew, hrow] at hid
      rw [List.inj_on_of_nodup_map hids hfound hrecord hid.symm]
      exact .inl rfl
  · rintro (rfl | ⟨found, hfound, candidate, hcandidate, hid, hlabel, rfl⟩)
    · exact ⟨record, hrecord, row, List.mem_append_right _ (List.mem_singleton_self _), hrow, rfl,
        rfl⟩
    · exact ⟨found, hfound, candidate, List.mem_append_left _ hcandidate, hid, hlabel, rfl⟩

theorem keys_append_of_ne (hne : L.label row ≠ label) :
    L.keys records (rows ++ [row]) label = L.keys records rows label := by
  ext key
  constructor
  · rintro ⟨found, hfound, candidate, hcandidate, hid, hlabel, rfl⟩
    rcases List.mem_append.mp hcandidate with hold | hnew
    · exact ⟨found, hfound, candidate, hold, hid, hlabel, rfl⟩
    · rw [List.mem_singleton.mp hnew] at hlabel
      exact absurd hlabel hne
  · rintro ⟨found, hfound, candidate, hcandidate, hid, hlabel, rfl⟩
    exact ⟨found, hfound, candidate, List.mem_append_left _ hcandidate, hid, hlabel, rfl⟩

/-- A record that is under no label yet. -/
theorem keys_append_record (hcovered : L.Covered records rows)
    (hnew : ∀ other ∈ records, L.id other ≠ L.id record) :
    L.keys (records ++ [record]) rows label = L.keys records rows label := by
  ext key
  constructor
  · rintro ⟨found, hfound, candidate, hcandidate, hid, hlabel, rfl⟩
    rcases List.mem_append.mp hfound with hold | hadded
    · exact ⟨found, hold, candidate, hcandidate, hid, hlabel, rfl⟩
    · obtain ⟨other, hother, hsame⟩ := hcovered candidate hcandidate
      rw [List.mem_singleton.mp hadded] at hid
      exact absurd (hsame.trans hid) (hnew other hother)
  · rintro ⟨found, hfound, candidate, hcandidate, hid, hlabel, rfl⟩
    exact ⟨found, List.mem_append_left _ hfound, candidate, hcandidate, hid, hlabel, rfl⟩

theorem keys_of_unused (h : ∀ row ∈ rows, L.label row ≠ label) :
    L.keys records rows label = ∅ := by
  ext key
  constructor
  · rintro ⟨_, _, candidate, hcandidate, _, hlabel, _⟩
    exact absurd hlabel (h candidate hcandidate)
  · exact False.elim

/-! ### Tallies of a label -/

section Tallied

variable [LinearOrder γ] [DecidableEq κ] {tally : Tally γ}

/-- The tally is that of the label. -/
def Tallied (L : Labelling ρ α ι γ κ) (records : List ρ) (rows : List α) (label : κ)
    (tally : Tally γ) : Prop :=
  tally.Describes (rows.countP fun row => L.label row = label) (L.keys records rows label)

theorem Tallied.append (row : α) (h : L.Tallied records rows (L.label row) tally)
    (hids : (records.map L.id).Nodup) (hrecord : record ∈ records)
    (hrow : L.rowId row = L.id record) :
    L.Tallied records (rows ++ [row]) (L.label row) (tally.add (L.key record)) := by
  unfold Tallied
  rw [keys_append hids hrecord hrow, List.countP_append, List.countP_singleton]
  simpa using Tally.Describes.add h (L.key record)

theorem Tallied.append_of_ne (h : L.Tallied records rows label tally)
    (hne : L.label row ≠ label) : L.Tallied records (rows ++ [row]) label tally := by
  unfold Tallied
  rw [keys_append_of_ne hne, List.countP_append, List.countP_singleton,
    if_neg (by simpa using hne)]
  exact h

theorem tallied_one (L : Labelling ρ α ι γ κ) (row : α)
    (hunused : ∀ other ∈ rows, L.label other ≠ L.label row)
    (hids : (records.map L.id).Nodup) (hrecord : record ∈ records)
    (hrow : L.rowId row = L.id record) :
    L.Tallied records (rows ++ [row]) (L.label row) (.one (L.key record)) := by
  have hcount : (rows.countP fun other => L.label other = L.label row) = 0 := by
    rw [List.countP_eq_zero]
    intro other hother
    simpa using hunused other hother
  unfold Tallied
  rw [keys_append hids hrecord hrow, keys_of_unused hunused, List.countP_append, hcount,
    List.countP_singleton]
  simpa using Tally.describes_one (L.key record)

theorem Tallied.append_record (h : L.Tallied records rows label tally)
    (hcovered : L.Covered records rows) (hnew : ∀ other ∈ records, L.id other ≠ L.id record) :
    L.Tallied (records ++ [record]) rows label tally := by
  unfold Tallied
  rw [keys_append_record hcovered hnew]
  exact h

/-- A tally in terms of the records, where exactly those with `p` are under the label. -/
theorem Tallied.describes {p : ρ → Prop} [DecidablePred p] (h : L.Tallied records rows label tally)
    (hids : (records.map L.id).Nodup) (honce : (rows.map L.rowId).Nodup)
    (hcovered : L.Covered records rows)
    (hlabel : ∀ record ∈ records,
      p record ↔ ∃ row ∈ rows, L.rowId row = L.id record ∧ L.label row = label) :
    tally.Describes (records.countP fun record => p record)
      {key | ∃ record ∈ records, p record ∧ L.key record = key} := by
  have hkeys : L.keys records rows label =
      {key | ∃ record ∈ records, p record ∧ L.key record = key} := by
    ext key
    constructor
    · rintro ⟨record, hrecord, row, hrow, hid, hunder, rfl⟩
      exact ⟨record, hrecord, (hlabel record hrecord).mpr ⟨row, hrow, hid, hunder⟩, rfl⟩
    · rintro ⟨record, hrecord, hp, rfl⟩
      obtain ⟨row, hrow, hid, hunder⟩ := (hlabel record hrecord).mp hp
      exact ⟨record, hrecord, row, hrow, hid, hunder, rfl⟩
  have hsame : ((rows.filter fun row => L.label row = label).map L.rowId).Perm
      ((records.filter fun record => p record).map L.id) := by
    refine (List.perm_ext_iff_of_nodup (honce.sublist (List.filter_sublist.map _))
      (hids.sublist (List.filter_sublist.map _))).mpr fun id => ?_
    simp only [List.mem_map, List.mem_filter, decide_eq_true_eq]
    constructor
    · rintro ⟨row, ⟨hrow, hunder⟩, rfl⟩
      obtain ⟨record, hrecord, hid⟩ := hcovered row hrow
      exact ⟨record, ⟨hrecord, (hlabel record hrecord).mpr ⟨row, hrow, hid.symm, hunder⟩⟩, hid⟩
    · rintro ⟨record, ⟨hrecord, hp⟩, rfl⟩
      obtain ⟨row, hrow, hid, hunder⟩ := (hlabel record hrecord).mp hp
      exact ⟨row, ⟨hrow, hunder⟩, hid⟩
  have hcount := hsame.length_eq
  rw [List.length_map, List.length_map, ← List.countP_eq_length_filter,
    ← List.countP_eq_length_filter] at hcount
  exact hcount ▸ hkeys ▸ h

end Tallied

theorem Covered.append (h : L.Covered records rows) (row : α) (hrecord : record ∈ records)
    (hrow : L.rowId row = L.id record) : L.Covered records (rows ++ [row]) := by
  intro candidate hcandidate
  rcases List.mem_append.mp hcandidate with hold | hnew
  · exact h candidate hold
  · rw [List.mem_singleton.mp hnew]
    exact ⟨record, hrecord, hrow.symm⟩

theorem Covered.append_record (h : L.Covered records rows) :
    L.Covered (records ++ [record]) rows := by
  intro candidate hcandidate
  obtain ⟨found, hfound, hid⟩ := h candidate hcandidate
  exact ⟨found, List.mem_append_left _ hfound, hid⟩

end Labelling
