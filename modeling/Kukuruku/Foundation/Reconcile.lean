import Mathlib.Data.List.Nodup

/-!
# Rows that follow a dictionary

A list of rows with distinct keys is brought in line with an association list: rows
without an entry are deleted one at a time, and then each entry changes its row or
adds one at the end.  Changing and adding may be impossible.
-/

namespace Kukuruku.Reconcile

universe u v w

/-! ## Deleting one at a time -/

section Sweep

variable {α : Type u} (old : α → Bool)

/-- Delete the first old row; `none` when there is none. -/
def deleteFirst (rows : List α) : Option (List α) :=
  (rows.findIdx? old).map rows.eraseIdx

/-- Start again after each deletion, for a number of rounds. -/
def sweep : Nat → List α → Option (List α)
  | 0, _ => none
  | rounds + 1, rows =>
      match deleteFirst old rows with
      | none => some rows
      | some rest => sweep rounds rest

variable {old} {rows rest : List α}

theorem deleteFirst_eq_none (none : deleteFirst old rows = none) :
    rows.filter (fun row => !old row) = rows := by
  rw [deleteFirst, Option.map_eq_none_iff, List.findIdx?_eq_none_iff] at none
  exact List.filter_eq_self.mpr fun row member => by rw [none row member]; rfl

/-- The deletion makes the list shorter, and leaves the other rows. -/
theorem deleteFirst_eq_some (some : deleteFirst old rows = some rest) :
    rest.length < rows.length ∧
      rest.filter (fun row => !old row) = rows.filter (fun row => !old row) := by
  obtain ⟨i, found, rfl⟩ := Option.map_eq_some_iff.mp some
  obtain ⟨inside, isOld, -⟩ := List.findIdx?_eq_some_iff_getElem.mp found
  refine ⟨by rw [List.length_eraseIdx_of_lt inside]; omega, ?_⟩
  have split : rows = rows.take i ++ rows[i] :: rows.drop (i + 1) := by
    rw [← List.drop_eq_getElem_cons inside, List.take_append_drop]
  conv_rhs => rw [split]
  rw [List.eraseIdx_eq_take_drop_succ, List.filter_append, List.filter_append,
    List.filter_cons_of_neg (by rw [isOld]; decide)]

/-- Enough rounds end, with all old rows deleted. -/
theorem sweep_eq {rounds : Nat} (enough : rows.length < rounds) :
    sweep old rounds rows = some (rows.filter fun row => !old row) := by
  induction rounds generalizing rows with
  | zero => exact absurd enough (Nat.not_lt_zero _)
  | succ rounds ih =>
      rw [sweep]
      cases deleted : deleteFirst old rows with
      | none => exact congrArg some (deleteFirst_eq_none deleted).symm
      | some rest =>
          obtain ⟨shorter, same⟩ := deleteFirst_eq_some deleted
          dsimp only
          rw [ih (by omega), same]

end Sweep

/-! ## Changing and adding -/

/-- How the rows depend on the entries. -/
structure Sync (α : Type u) (κ : Type v) (β : Type w) where
  key : α → κ
  change : κ → β → α → α
  create : κ → β → α
  canChange : κ → β → Bool
  canCreate : κ → β → Bool
  key_change : ∀ k value row, key (change k value row) = key row
  key_create : ∀ k value, key (create k value) = k

namespace Sync

variable {α : Type u} {κ : Type v} {β : Type w} [DecidableEq κ] (sync : Sync α κ β)

/-- Change the row of an entry, or add one. -/
def put (rows : List α) (entry : κ × β) : Option (List α) :=
  match rows.findIdx? fun row => decide (sync.key row = entry.1) with
  | none =>
      if sync.canCreate entry.1 entry.2 then some (rows ++ [sync.create entry.1 entry.2]) else none
  | some i =>
      if sync.canChange entry.1 entry.2 then
        some (rows.modify i (sync.change entry.1 entry.2))
      else none

def putAll (rows : List α) (entries : List (κ × β)) : Option (List α) :=
  entries.foldlM sync.put rows

def keys (rows : List α) : List κ := rows.map sync.key

/-- The row of an entry is changed, every other one stays. -/
def refresh (entries : List (κ × β)) (row : α) : α :=
  match entries.lookup (sync.key row) with
  | some value => sync.change (sync.key row) value row
  | none => row

/-- The entries without a row. -/
def fresh (rows : List α) (entries : List (κ × β)) : List (κ × β) :=
  entries.filter fun entry => decide (entry.1 ∉ sync.keys rows)

/-- The entry's row can be changed, or added. -/
def can (rows : List α) (entry : κ × β) : Bool :=
  if entry.1 ∈ sync.keys rows then sync.canChange entry.1 entry.2
  else sync.canCreate entry.1 entry.2

/-- All rows changed and added. -/
def synced (rows : List α) (entries : List (κ × β)) : List α :=
  rows.map (sync.refresh entries) ++
    (sync.fresh rows entries).map fun entry => sync.create entry.1 entry.2

variable {sync} {rows : List α} {entries : List (κ × β)} {k : κ} {value : β}

omit [DecidableEq κ] in
theorem mem_keys : k ∈ sync.keys rows ↔ ∃ row ∈ rows, sync.key row = k := List.mem_map

theorem findIdx?_eq_none (absent : k ∉ sync.keys rows) :
    (rows.findIdx? fun row => decide (sync.key row = k)) = none := by
  refine List.findIdx?_eq_none_iff.mpr fun row member => decide_eq_false fun same => ?_
  exact absent (mem_keys.mpr ⟨row, member, same⟩)

omit [DecidableEq κ] in
theorem map_eq_self [∀ j, Decidable (j = k)] (absent : k ∉ sync.keys rows) (f : α → α) :
    (rows.map fun row => if sync.key row = k then f row else row) = rows := by
  conv_rhs => rw [← List.map_id rows]
  refine List.map_congr_left fun row member => if_neg fun same => ?_
  exact absent (mem_keys.mpr ⟨row, member, same⟩)

/-- With distinct keys, changing the first row of a key is changing every one. -/
theorem modify_findIdx? (distinct : (sync.keys rows).Nodup) (present : k ∈ sync.keys rows)
    (f : α → α) : ∃ i, (rows.findIdx? fun row => decide (sync.key row = k)) = some i ∧
      rows.modify i f = rows.map fun row => if sync.key row = k then f row else row := by
  induction rows with
  | nil => cases present
  | cons first rest ih =>
      rw [keys, List.map_cons, List.nodup_cons] at distinct
      by_cases here : sync.key first = k
      · refine ⟨0, by rw [List.findIdx?_cons, decide_eq_true here]; rfl, ?_⟩
        rw [List.modify_zero_cons, List.map_cons, if_pos here,
          map_eq_self (here ▸ distinct.1 : k ∉ sync.keys rest)]
      · have later : k ∈ sync.keys rest :=
          (List.mem_cons.mp present).resolve_left fun same => here same.symm
        obtain ⟨i, found, changed⟩ := ih distinct.2 later
        refine ⟨i + 1, ?_, ?_⟩
        · rw [List.findIdx?_cons, decide_eq_false here, found]
          rfl
        · rw [List.modify_succ_cons, List.map_cons, if_neg here, changed]

theorem put_absent (absent : k ∉ sync.keys rows) : sync.put rows (k, value) =
    if sync.can rows (k, value) then some (rows ++ [sync.create k value]) else none := by
  simp only [put, findIdx?_eq_none absent, can, if_neg absent]

theorem put_present (distinct : (sync.keys rows).Nodup) (present : k ∈ sync.keys rows) :
    sync.put rows (k, value) = if sync.can rows (k, value) then
      some (rows.map fun row => if sync.key row = k then sync.change k value row else row)
    else none := by
  obtain ⟨i, found, changed⟩ := modify_findIdx? distinct present (sync.change k value)
  simp only [put, found, changed, can, if_pos present]

/-! ### All entries -/

theorem key_refresh (row : α) : sync.key (sync.refresh entries row) = sync.key row := by
  unfold refresh
  split
  · exact sync.key_change _ _ _
  · rfl

theorem refresh_of_lookup {row : α} (found : entries.lookup (sync.key row) = some value) :
    sync.refresh entries row = sync.change (sync.key row) value row := by
  rw [refresh, found]

theorem refresh_of_not_mem {row : α} (absent : sync.key row ∉ entries.map Prod.fst) :
    sync.refresh entries row = row := by
  have missing : entries.lookup (sync.key row) = none := by
    refine List.lookup_eq_none_iff.mpr fun entry member => bne_iff_ne.mpr fun same => ?_
    exact absent (same ▸ List.mem_map_of_mem member)
  rw [refresh, missing]

theorem can_congr {others : List α} {entry : κ × β}
    (same : entry.1 ∈ sync.keys others ↔ entry.1 ∈ sync.keys rows) :
    sync.can others entry = sync.can rows entry := by
  rw [can, can]
  exact if_congr same rfl rfl

theorem fresh_congr {others : List α} (entries : List (κ × β))
    (same : ∀ entry ∈ entries, entry.1 ∈ sync.keys others ↔ entry.1 ∈ sync.keys rows) :
    sync.fresh others entries = sync.fresh rows entries :=
  List.filter_congr fun entry member => decide_eq_decide.mpr (not_congr (same entry member))

theorem all_can_congr {others : List α} (entries : List (κ × β))
    (same : ∀ entry ∈ entries, entry.1 ∈ sync.keys others ↔ entry.1 ∈ sync.keys rows) :
    entries.all (sync.can others) = entries.all (sync.can rows) := by
  rw [Bool.eq_iff_iff, List.all_eq_true, List.all_eq_true]
  exact forall₂_congr fun entry member => by rw [can_congr (same entry member)]

/-- An entry before others, with its row. -/
theorem synced_present (value : β) (present : k ∈ sync.keys rows)
    (apart : k ∉ entries.map Prod.fst) :
    let changed := rows.map fun row => if sync.key row = k then sync.change k value row else row
    sync.keys changed = sync.keys rows ∧
      sync.synced changed entries = sync.synced rows ((k, value) :: entries) := by
  intro changed
  have keys_eq : sync.keys changed = sync.keys rows := by
    rw [keys, List.map_map]
    refine List.map_congr_left fun row _ => ?_
    rw [Function.comp_apply]
    split
    · exact sync.key_change _ _ _
    · rfl
  have rest : sync.fresh changed entries = sync.fresh rows entries :=
    fresh_congr entries fun entry _ => by rw [keys_eq]
  refine ⟨keys_eq, ?_⟩
  rw [synced, synced, rest, fresh, fresh, List.filter_cons_of_neg (by simpa using present),
    List.map_map]
  congr 1
  refine List.map_congr_left fun row _ => ?_
  rw [Function.comp_apply]
  by_cases here : sync.key row = k
  · rw [if_pos here, refresh_of_not_mem (by rw [sync.key_change, here]; exact apart),
      refresh_of_lookup (by rw [here, List.lookup_cons_self]), here]
  · rw [if_neg here, refresh, refresh, List.lookup_cons, beq_eq_false_iff_ne.mpr here]

/-- An entry before others, without a row. -/
theorem synced_absent (value : β) (absent : k ∉ sync.keys rows) (apart : k ∉ entries.map Prod.fst) :
    sync.synced (rows ++ [sync.create k value]) entries =
      sync.synced rows ((k, value) :: entries) := by
  have rest : sync.fresh (rows ++ [sync.create k value]) entries = sync.fresh rows entries := by
    refine fresh_congr entries fun entry member => ?_
    have other : entry.1 ≠ k := fun same => apart (List.mem_map.mpr ⟨entry, member, same⟩)
    simp [keys, sync.key_create, other]
  have first : rows.map (sync.refresh ((k, value) :: entries)) =
      rows.map (sync.refresh entries) := by
    refine List.map_congr_left fun row member => ?_
    have other : sync.key row ≠ k := fun same => absent (mem_keys.mpr ⟨row, member, same⟩)
    rw [refresh, refresh, List.lookup_cons, beq_eq_false_iff_ne.mpr other]
  rw [synced, synced, rest, first, List.map_append, List.map_singleton,
    refresh_of_not_mem (by rw [sync.key_create]; exact apart), fresh, fresh,
    List.filter_cons_of_pos (by simpa using absent), List.map_cons, List.append_assoc]
  rfl

/-- Distinct keys on both sides: the entries go through exactly when each of them can be
shown, and then each row of an entry is changed and the entries without one follow. -/
theorem putAll_eq (distinct : (sync.keys rows).Nodup) (apart : (entries.map Prod.fst).Nodup) :
    sync.putAll rows entries =
      if entries.all (sync.can rows) then some (sync.synced rows entries) else none := by
  induction entries generalizing rows with
  | nil =>
      have same : rows.map (sync.refresh []) = rows := by
        conv_rhs => rw [← List.map_id rows]
        exact List.map_congr_left fun row _ => rfl
      simp [putAll, synced, fresh, same]
  | cons entry rest ih =>
      obtain ⟨k, value⟩ := entry
      rw [List.map_cons, List.nodup_cons] at apart
      rw [putAll, List.foldlM_cons, List.all_cons]
      by_cases present : k ∈ sync.keys rows
      · rw [put_present distinct present]
        cases sync.can rows (k, value) with
        | false => rfl
        | true =>
            obtain ⟨keys_eq, same⟩ := synced_present value present apart.1
            have after := ih (keys_eq ▸ distinct) apart.2
            have seen := all_can_congr rest fun entry _ =>
              iff_of_eq (congrArg (entry.1 ∈ ·) keys_eq)
            rw [seen, same] at after
            exact after
      · rw [put_absent present]
        cases sync.can rows (k, value) with
        | false => rfl
        | true =>
            have longer : (sync.keys (rows ++ [sync.create k value])).Nodup := by
              rw [keys, List.map_append, List.map_singleton, sync.key_create,
                ← List.concat_eq_append]
              exact distinct.concat present
            have seen : rest.all (sync.can (rows ++ [sync.create k value])) =
                rest.all (sync.can rows) := by
              refine all_can_congr rest fun entry member => ?_
              have other : entry.1 ≠ k := fun same =>
                apart.1 (List.mem_map.mpr ⟨entry, member, same⟩)
              simp [keys, sync.key_create, other]
            have after := ih longer apart.2
            rw [synced_absent value present apart.1, seen] at after
            exact after

/-! ### The result -/

/-- The rows that were there stay in front, in their order. -/
theorem prefix_synced : rows.map (sync.refresh entries) <+: sync.synced rows entries :=
  List.prefix_append _ _

theorem keys_synced : sync.keys (sync.synced rows entries) =
    sync.keys rows ++ (sync.fresh rows entries).map Prod.fst := by
  rw [synced, keys, List.map_append, List.map_map, List.map_map]
  exact congrArg₂ _ (List.map_congr_left fun row _ => key_refresh row)
    (List.map_congr_left fun entry _ => sync.key_create _ _)

theorem mem_fresh {entry : κ × β} : entry ∈ sync.fresh rows entries ↔
    entry ∈ entries ∧ entry.1 ∉ sync.keys rows := by
  rw [fresh, List.mem_filter, decide_eq_true_eq]

theorem mem_keys_synced (sync : Sync α κ β) : k ∈ sync.keys (sync.synced rows entries) ↔
    k ∈ sync.keys rows ∨ k ∈ entries.map Prod.fst := by
  rw [keys_synced, List.mem_append]
  by_cases present : k ∈ sync.keys rows
  · simp only [present, true_or]
  · simp only [present, false_or, List.mem_map, mem_fresh]
    constructor
    · rintro ⟨entry, ⟨member, -⟩, same⟩
      exact ⟨entry, member, same⟩
    · rintro ⟨entry, member, rfl⟩
      exact ⟨entry, ⟨member, present⟩, rfl⟩

theorem nodup_keys_synced (sync : Sync α κ β) (distinct : (sync.keys rows).Nodup)
    (apart : (entries.map Prod.fst).Nodup) : (sync.keys (sync.synced rows entries)).Nodup := by
  rw [keys_synced]
  refine distinct.append (apart.sublist (List.filter_sublist.map Prod.fst)) ?_
  intro k present added
  obtain ⟨entry, member, rfl⟩ := List.mem_map.mp added
  exact (mem_fresh.mp member).2 present

theorem isSome_lookup : (entries.lookup k).isSome ↔ k ∈ entries.map Prod.fst := by
  rw [List.lookup_isSome_iff, List.mem_map]
  exact exists_congr fun entry => and_congr_right fun _ => beq_iff_eq.trans eq_comm

theorem lookup_eq_some (apart : (entries.map Prod.fst).Nodup) {entry : κ × β}
    (member : entry ∈ entries) : entries.lookup entry.1 = some entry.2 := by
  induction entries with
  | nil => cases member
  | cons first rest ih =>
      rw [List.map_cons, List.nodup_cons] at apart
      rcases List.mem_cons.mp member with rfl | later
      · exact List.lookup_cons_self
      · have other : entry.1 ≠ first.1 := fun same =>
          apart.1 (same ▸ List.mem_map_of_mem later)
        rw [List.lookup_cons, beq_eq_false_iff_ne.mpr other]
        exact ih apart.2 later

/-- A row of an entry is one that was there, changed, or a new one. -/
theorem mem_synced (apart : (entries.map Prod.fst).Nodup) {row : α}
    (member : row ∈ sync.synced rows entries) (found : entries.lookup (sync.key row) = some value) :
    (∃ old ∈ rows, sync.key old = sync.key row ∧ row = sync.change (sync.key row) value old) ∨
      sync.key row ∉ sync.keys rows ∧ row = sync.create (sync.key row) value := by
  rcases List.mem_append.mp member with changed | added
  · obtain ⟨old, was, rfl⟩ := List.mem_map.mp changed
    rw [key_refresh] at found ⊢
    exact Or.inl ⟨old, was, rfl, refresh_of_lookup found⟩
  · obtain ⟨entry, isFresh, rfl⟩ := List.mem_map.mp added
    rw [sync.key_create] at found ⊢
    obtain ⟨listed, absent⟩ := mem_fresh.mp isFresh
    obtain rfl := Option.some.inj ((lookup_eq_some apart listed).symm.trans found)
    exact Or.inr ⟨absent, rfl⟩

/-- The row that an entry gets. -/
theorem synced_of_mem (sync : Sync α κ β) (rows : List α) (apart : (entries.map Prod.fst).Nodup)
    {entry : κ × β} (member : entry ∈ entries) :
    (∃ old ∈ rows, sync.key old = entry.1 ∧
      sync.change entry.1 entry.2 old ∈ sync.synced rows entries) ∨
      entry.1 ∉ sync.keys rows ∧ sync.create entry.1 entry.2 ∈ sync.synced rows entries := by
  by_cases present : entry.1 ∈ sync.keys rows
  · obtain ⟨old, was, same⟩ := mem_keys.mp present
    refine Or.inl ⟨old, was, same, List.mem_append_left _ (List.mem_map.mpr ⟨old, was, ?_⟩)⟩
    rw [refresh_of_lookup (same ▸ lookup_eq_some apart member), same]
  · exact Or.inr ⟨present, List.mem_append_right _
      (List.mem_map.mpr ⟨entry, mem_fresh.mpr ⟨member, present⟩, rfl⟩)⟩

end Sync

end Kukuruku.Reconcile
