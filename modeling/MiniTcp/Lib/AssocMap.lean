import Mathlib.Algebra.Order.BigOperators.Group.List
import Mathlib.Algebra.Order.Ring.Nat
import Mathlib.Data.List.AList

/-!
# Finite maps with values of one type

`AList` carries the distinctness of its keys, so a table with a repeated key
cannot be built.  Here the value type does not depend on the key, and operations are
added that act on all entries at once: apply a function to every value (also one that
may fail), rename every key, keep the entries that pass a test, and add up a weight
of the values.
-/

/-- A finite map from `κ` to `α`. -/
abbrev AssocMap (κ α : Type*) := AList (fun _ : κ ↦ α)

namespace AssocMap

variable {κ α β : Type*}

def values (m : AssocMap κ α) : List α := m.entries.map fun e ↦ e.2

def mapVals (f : α → β) (m : AssocMap κ α) : AssocMap κ β :=
  ⟨m.entries.map (Sigma.map id fun _ ↦ f), m.nodupKeys.map₂ fun _ ↦ f⟩

def retain (p : α → Bool) (m : AssocMap κ α) : AssocMap κ α :=
  ⟨m.entries.filter fun e ↦ p e.2, m.nodupKeys.sublist List.filter_sublist⟩

def weight (f : α → ℕ) (m : AssocMap κ α) : ℕ := (m.values.map f).sum

def mapKeys (f : κ → κ) (hf : Function.Injective f) (m : AssocMap κ α) : AssocMap κ α where
  entries := m.entries.map fun e ↦ ⟨f e.1, e.2⟩
  nodupKeys := by
    have hkeys : (m.entries.map fun e ↦ (⟨f e.1, e.2⟩ : Sigma fun _ : κ ↦ α)).keys =
        m.entries.keys.map f := by
      simp [List.keys, Function.comp_def]
    rw [List.NodupKeys, hkeys]
    exact List.Nodup.map hf m.nodupKeys

theorem values_mapVals (f : α → β) (m : AssocMap κ α) : (mapVals f m).values = m.values.map f := by
  simp [values, mapVals, Function.comp_def, Sigma.map]

theorem mapVals_mapVals {γ : Type*} (g : β → γ) (f : α → β) (m : AssocMap κ α) :
    mapVals g (mapVals f m) = mapVals (fun v ↦ g (f v)) m :=
  AList.ext (by simp [mapVals, Function.comp_def, Sigma.map])

theorem mapVals_eq_self {f : α → α} {m : AssocMap κ α} (h : ∀ v ∈ m.values, f v = v) :
    mapVals f m = m := by
  refine AList.ext ((List.map_congr_left fun e he ↦ ?_).trans (List.map_id _))
  change (⟨e.1, f e.2⟩ : Sigma fun _ : κ ↦ α) = e
  rw [h e.2 (List.mem_map_of_mem he)]

theorem retain_eq_self {p : α → Bool} {m : AssocMap κ α} (h : ∀ v ∈ m.values, p v = true) :
    retain p m = m :=
  AList.ext (List.filter_eq_self.mpr fun _ he ↦ h _ (List.mem_map_of_mem he))

section MapValsM

variable {ε κ α β : Type}

def mapEntriesM (f : α → Except ε β) : (l : List (Sigma fun _ : κ ↦ α)) →
    Except ε { l' : List (Sigma fun _ : κ ↦ β) // l'.keys = l.keys }
  | [] => .ok ⟨[], rfl⟩
  | e :: l => do
      let v ← f e.2
      let rest ← mapEntriesM f l
      return ⟨⟨e.1, v⟩ :: rest.1, by simp [rest.2]⟩

/-- Apply a function that may fail to every value, in the order of the entries. -/
def mapValsM (f : α → Except ε β) (m : AssocMap κ α) : Except ε (AssocMap κ β) := do
  let l ← mapEntriesM f m.entries
  return ⟨l.1, (congrArg List.Nodup l.2).mpr m.nodupKeys⟩

theorem mapEntriesM_of_ok {f : α → Except ε β} {g : α → β} {l : List (Sigma fun _ : κ ↦ α)}
    (h : ∀ e ∈ l, f e.2 = .ok (g e.2)) :
    ∃ hkeys, mapEntriesM f l = .ok ⟨l.map (Sigma.map id fun _ ↦ g), hkeys⟩ := by
  induction l with
  | nil => exact ⟨rfl, rfl⟩
  | cons e l ih =>
      rw [List.forall_mem_cons] at h
      obtain ⟨hkeys, hrest⟩ := ih h.2
      refine ⟨?_, ?_⟩
      · rw [List.map_cons, List.keys_cons, List.keys_cons, hkeys]
        rfl
      · rw [mapEntriesM, h.1, hrest]
        rfl

theorem mapValsM_of_ok {f : α → Except ε β} {g : α → β} {m : AssocMap κ α}
    (h : ∀ v ∈ m.values, f v = .ok (g v)) : mapValsM f m = .ok (mapVals g m) := by
  obtain ⟨hkeys, hentries⟩ := mapEntriesM_of_ok fun e he ↦ h e.2 (List.mem_map_of_mem he)
  rw [mapValsM, hentries]
  rfl

end MapValsM

theorem weight_retain_le (f : α → ℕ) (p : α → Bool) (m : AssocMap κ α) :
    weight f (retain p m) ≤ weight f m := by
  unfold weight values retain
  dsimp only
  induction m.entries with
  | nil => exact Nat.le_refl _
  | cons e l ih =>
      simp only [List.filter_cons]
      split_ifs <;> simp only [List.map_cons, List.sum_cons] <;> omega

variable {f : κ → κ} {hf : Function.Injective f}

@[simp] theorem values_mapKeys (m : AssocMap κ α) : (mapKeys f hf m).values = m.values := by
  simp [values, mapKeys, Function.comp_def]

@[simp] theorem weight_mapKeys (w : α → ℕ) (m : AssocMap κ α) :
    weight w (mapKeys f hf m) = weight w m := by
  simp [weight]

@[simp] theorem length_mapKeys (m : AssocMap κ α) :
    (mapKeys f hf m).entries.length = m.entries.length := by
  simp [mapKeys]

@[simp] theorem mapKeys_empty : mapKeys f hf (∅ : AssocMap κ α) = ∅ := rfl

variable [DecidableEq κ]

/-- Unlike the instance of `AList`, this one evaluates. -/
instance [DecidableEq α] : DecidableEq (AssocMap κ α) :=
  fun m m' ↦ decidable_of_iff (m.entries = m'.entries) AList.ext_iff.symm

theorem mem_values {m : AssocMap κ α} {v : α} : v ∈ m.values ↔ ∃ k, m.lookup k = some v := by
  constructor
  · intro h
    obtain ⟨⟨k, v'⟩, hmem, rfl⟩ := List.mem_map.mp h
    exact ⟨k, AList.mem_lookup_iff.mpr hmem⟩
  · rintro ⟨k, h⟩
    exact List.mem_map.mpr ⟨⟨k, v⟩, AList.mem_lookup_iff.mp h, rfl⟩

@[simp] theorem lookup_mapVals (f : α → β) (m : AssocMap κ α) (k : κ) :
    (mapVals f m).lookup k = (m.lookup k).map f :=
  List.dlookup_map₂ (l := m.entries) (f := fun _ ↦ f) k

theorem lookup_retain (p : α → Bool) (m : AssocMap κ α) (k : κ) :
    (retain p m).lookup k = (m.lookup k).filter p := by
  apply Option.ext
  intro v
  have hmem : ⟨k, v⟩ ∈ (retain p m).entries ↔ ⟨k, v⟩ ∈ m.entries ∧ p v = true := by
    simp [retain, List.mem_filter]
  have hret : (retain p m).lookup k = some v ↔ ⟨k, v⟩ ∈ (retain p m).entries :=
    AList.mem_lookup_iff
  have hm : m.lookup k = some v ↔ ⟨k, v⟩ ∈ m.entries := AList.mem_lookup_iff
  rw [hret, hmem, ← hm, Option.filter_eq_some_iff]

theorem lookup_retain_eq_some {p : α → Bool} {m : AssocMap κ α} {k : κ} {v : α} :
    (retain p m).lookup k = some v ↔ m.lookup k = some v ∧ p v = true := by
  rw [lookup_retain, Option.filter_eq_some_iff]

theorem lookup_insert_eq (m : AssocMap κ α) (k k' : κ) (v : α) :
    (AList.insert k v m).lookup k' = if k' = k then some v else m.lookup k' := by
  by_cases h : k' = k
  · subst h
    simp
  · simp [h]

theorem entries_erase (m : AssocMap κ α) (k : κ) :
    (AList.erase k m).entries = m.entries.kerase k := rfl

theorem lookup_erase_eq (m : AssocMap κ α) (k k' : κ) :
    (AList.erase k m).lookup k' = if k' = k then none else m.lookup k' := by
  by_cases h : k' = k
  · subst h
    simp
  · simp [h]

theorem values_perm_erase {m : AssocMap κ α} {k : κ} {v : α} (h : m.lookup k = some v) :
    m.values.Perm (v :: values (AList.erase k m)) := by
  have hmem : ⟨k, v⟩ ∈ m.entries := AList.mem_lookup_iff.mp h
  obtain ⟨v', l₁, l₂, hnot, heq, hkerase⟩ :=
    List.exists_of_kerase (List.mem_keys_of_mem hmem)
  have hv : v' = v :=
    m.nodupKeys.eq_of_mk_mem (by rw [heq]; simp) hmem
  subst hv
  have herase : (AList.erase k m).entries = l₁ ++ l₂ := hkerase
  simp only [values, herase, heq, List.map_append, List.map_cons]
  exact List.perm_middle

theorem erase_of_lookup_eq_none {m : AssocMap κ α} {k : κ} (h : m.lookup k = none) :
    AList.erase k m = m :=
  AList.ext (List.kerase_of_notMem_keys (List.dlookup_eq_none.mp h))

theorem values_insert (m : AssocMap κ α) (k : κ) (v : α) :
    values (AList.insert k v m) = v :: values (AList.erase k m) := by
  simp [values, AList.entries_insert, entries_erase]

theorem weight_erase (f : α → ℕ) {m : AssocMap κ α} {k : κ} {v : α}
    (h : m.lookup k = some v) : weight f m = f v + weight f (AList.erase k m) := by
  rw [weight, ((values_perm_erase h).map f).sum_nat, List.map_cons, List.sum_cons, weight]

theorem weight_erase_le (f : α → ℕ) (m : AssocMap κ α) (k : κ) :
    weight f (AList.erase k m) ≤ weight f m := by
  cases h : m.lookup k with
  | none => rw [erase_of_lookup_eq_none h]
  | some v =>
      have := weight_erase f h
      omega

theorem weight_insert (f : α → ℕ) (m : AssocMap κ α) (k : κ) (v : α) :
    weight f (AList.insert k v m) = f v + weight f (AList.erase k m) := by
  rw [weight, values_insert, List.map_cons, List.sum_cons, weight]

/-- The weight does not depend on the order of the entries. -/
theorem weight_congr (f : α → ℕ) {m m' : AssocMap κ α} (h : ∀ k, m.lookup k = m'.lookup k) :
    weight f m = weight f m' := by
  have hperm : m.entries.Perm m'.entries := by
    refine List.lookup_ext m.nodupKeys m'.nodupKeys ?_
    intro k v
    change v ∈ m.lookup k ↔ v ∈ m'.lookup k
    rw [h]
  exact ((hperm.map fun e ↦ e.2).map f).sum_nat

theorem lookup_insert_of_lookup {m : AssocMap κ α} {k : κ} {v : α} (h : m.lookup k = some v)
    (k' : κ) : (AList.insert k v m).lookup k' = m.lookup k' := by
  rw [lookup_insert_eq]
  split_ifs with hk
  · rw [hk, h]
  · rfl

theorem eq_empty_of_lookup {m : AssocMap κ α} (h : ∀ k, m.lookup k = none) : m = ∅ := by
  apply AList.ext
  rw [AList.empty_entries, List.eq_nil_iff_forall_not_mem]
  intro e he
  have hlook : m.lookup e.1 = some e.2 := AList.mem_lookup_iff.mpr he
  rw [h] at hlook
  cases hlook

/-- A map whose entries all stand in a list weighs at most what the list does. -/
theorem weight_le_of_forall_mem (f : α → ℕ) {m : AssocMap κ α} {l : List (κ × α)}
    (h : ∀ k v, m.lookup k = some v → (k, v) ∈ l) : weight f m ≤ (l.map fun x ↦ f x.2).sum := by
  have hnodup : (m.entries.map fun e ↦ (e.1, e.2)).Nodup := by
    refine m.nodupKeys.nodup.map ?_
    intro e e' heq
    obtain ⟨k, v⟩ := e
    obtain ⟨k', v'⟩ := e'
    obtain ⟨rfl, rfl⟩ := Prod.mk.inj heq
    rfl
  have hsub : (m.entries.map fun e ↦ (e.1, e.2)) ⊆ l := by
    intro x hx
    obtain ⟨e, he, rfl⟩ := List.mem_map.mp hx
    exact h _ _ (AList.mem_lookup_iff.mpr he)
  obtain ⟨l', hperm, hle⟩ := List.subperm_of_subset hnodup hsub
  have hweight : weight f m = (l'.map fun x ↦ f x.2).sum := by
    rw [(hperm.map fun x ↦ f x.2).sum_nat, weight, values, List.map_map, List.map_map]
    rfl
  rw [hweight]
  exact (hle.map _).sum_le_sum fun _ _ ↦ Nat.zero_le _

theorem length_erase_add_one {m : AssocMap κ α} {k : κ} {v : α} (h : m.lookup k = some v) :
    (AList.erase k m).entries.length + 1 = m.entries.length := by
  have hlen := (values_perm_erase h).length_eq
  simp only [values, List.length_cons, List.length_map] at hlen
  exact hlen.symm

variable (hf)

@[simp] theorem lookup_mapKeys (m : AssocMap κ α) (k : κ) :
    (mapKeys f hf m).lookup (f k) = m.lookup k := by
  apply Option.ext
  intro v
  have hmem : ⟨f k, v⟩ ∈ (mapKeys f hf m).entries ↔ ⟨k, v⟩ ∈ m.entries := by
    simp only [mapKeys, List.mem_map]
    constructor
    · rintro ⟨⟨k', v'⟩, he, heq⟩
      obtain ⟨hk, hv⟩ := Sigma.mk.inj heq
      obtain rfl := hf hk
      obtain rfl := eq_of_heq hv
      exact he
    · intro he
      exact ⟨⟨k, v⟩, he, rfl⟩
  exact AList.mem_lookup_iff.trans (hmem.trans AList.mem_lookup_iff.symm)

@[simp] theorem erase_mapKeys (m : AssocMap κ α) (k : κ) :
    AList.erase (f k) (mapKeys f hf m) = mapKeys f hf (AList.erase k m) := by
  apply AList.ext
  simp only [mapKeys, entries_erase, List.kerase, List.eraseP_map, Function.comp_def, hf.eq_iff]

@[simp] theorem insert_mapKeys (m : AssocMap κ α) (k : κ) (v : α) :
    AList.insert (f k) v (mapKeys f hf m) = mapKeys f hf (AList.insert k v m) := by
  have herase := congrArg AList.entries (erase_mapKeys hf m k)
  apply AList.ext
  rw [AList.entries_insert]
  simp only [mapKeys, AList.entries_insert, List.map_cons, List.cons.injEq, true_and]
  exact herase

end AssocMap
