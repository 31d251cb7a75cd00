import Mathlib.Data.Set.Function
import Mathlib.Data.Set.Insert

/-!
# Handles and the resources they stand for

A family of handles, each of which stands for at most one resource, next to a set of
registered resources that is kept on its own.  The two agree when the registered
resources are exactly those some handle stands for (`Covers`), and a resource has one
handle at most when the family is `Exclusive`.  Here is what taking and giving up a
handle does to the two, whatever becomes of the set.
-/

namespace Registry

variable {ι A : Type*} {f : ι → Option A} {R : Set A} {i : ι} {a : A}

def Covers (f : ι → Option A) (R : Set A) : Prop := ∀ a, a ∈ R ↔ ∃ i, f i = some a

def Exclusive (f : ι → Option A) : Prop := ∀ i j a, f i = some a → f j = some a → i = j

/-- Some handle other than `i` stands for `a`. -/
def Besides (f : ι → Option A) (i : ι) (a : A) : Prop := ∃ j, j ≠ i ∧ f j = some a

theorem bijOn_iff :
    Set.BijOn f {i | f i ≠ none} (Set.image some R) ↔ Covers f R ∧ Exclusive f := by
  constructor
  · rintro ⟨hmaps, hinj, hsurj⟩
    refine ⟨fun a ↦ ⟨fun ha ↦ ?_, fun ⟨i, hi⟩ ↦ ?_⟩, fun i j a hi hj ↦ ?_⟩
    · obtain ⟨i, -, hi⟩ := hsurj (Set.mem_image_of_mem some ha)
      exact ⟨i, hi⟩
    · have hmem : i ∈ {i | f i ≠ none} := by simp [hi]
      obtain ⟨b, hb, hbi⟩ := hmaps hmem
      obtain rfl := Option.some.inj (hbi.trans hi)
      exact hb
    · exact hinj (by simp [hi]) (by simp [hj]) (hi.trans hj.symm)
  · rintro ⟨hcovers, hx⟩
    refine ⟨fun i hi ↦ ?_, fun i hi j hj heq ↦ ?_, ?_⟩
    · obtain ⟨a, ha⟩ := Option.ne_none_iff_exists'.mp hi
      exact ⟨a, (hcovers a).mpr ⟨i, ha⟩, ha.symm⟩
    · obtain ⟨a, ha⟩ := Option.ne_none_iff_exists'.mp hi
      exact hx i j a ha (heq.symm.trans ha)
    · rintro - ⟨a, ha, rfl⟩
      obtain ⟨i, hi⟩ := (hcovers a).mp ha
      exact ⟨i, by simp [hi], hi⟩

variable [DecidableEq ι]

theorem update_eq_some {o : Option A} {j : ι} (h : Function.update f i o j = some a) :
    j = i ∧ o = some a ∨ j ≠ i ∧ f j = some a := by
  by_cases hj : j = i
  · subst hj
    rw [Function.update_self] at h
    exact .inl ⟨rfl, h⟩
  · rw [Function.update_of_ne hj] at h
    exact .inr ⟨hj, h⟩

theorem exists_update_iff {o : Option A} :
    (∃ j, Function.update f i o j = some a) ↔ o = some a ∨ Besides f i a := by
  constructor
  · rintro ⟨j, hj⟩
    rcases update_eq_some hj with ⟨-, ho⟩ | hj
    · exact .inl ho
    · exact .inr ⟨j, hj⟩
  · rintro (ho | ⟨j, hne, hj⟩)
    · exact ⟨i, by rw [Function.update_self, ho]⟩
    · exact ⟨j, by rw [Function.update_of_ne hne, hj]⟩

theorem exists_iff_besides : (∃ j, f j = some a) ↔ f i = some a ∨ Besides f i a := by
  have h := exists_update_iff (f := f) (i := i) (o := f i) (a := a)
  rwa [Function.update_eq_self] at h

/-- Giving a handle up while the set stays as it is. -/
theorem Covers.release_iff (h : Covers f R) :
    Covers (Function.update f i none) R ↔ ∀ b, f i = some b → Besides f i b := by
  constructor
  · intro hrel b hb
    have hmem := (hrel b).mp ((h b).mpr ⟨i, hb⟩)
    exact (exists_update_iff.mp hmem).resolve_left (by simp)
  · intro hother b
    rw [h b, exists_update_iff, exists_iff_besides (i := i)]
    constructor
    · rintro (hb | hb)
      · exact .inr (hother b hb)
      · exact .inr hb
    · rintro (hb | hb)
      · cases hb
      · exact .inr hb

/-- Taking a handle on a resource that is registered on this occasion. -/
theorem Covers.claim_iff (h : Covers f R) :
    Covers (Function.update f i (some a)) (insert a R) ↔
      ∀ b, f i = some b → b = a ∨ Besides f i b := by
  constructor
  · intro hclaim b hb
    have hmem := (hclaim b).mp (Set.mem_insert_of_mem a ((h b).mpr ⟨i, hb⟩))
    rcases exists_update_iff.mp hmem with heq | hbesides
    · exact .inl (Option.some.inj heq).symm
    · exact .inr hbesides
  · intro hother b
    rw [Set.mem_insert_iff, h b, exists_update_iff, exists_iff_besides (i := i),
      Option.some_inj]
    constructor
    · rintro (rfl | hb | hb)
      · exact .inl rfl
      · exact (hother b hb).imp Eq.symm id
      · exact .inr hb
    · rintro (rfl | hb)
      · exact .inl rfl
      · exact .inr (.inr hb)

/-- Taking a handle on a resource that is not registered. -/
theorem not_covers_claim (ha : a ∉ R) : ¬ Covers (Function.update f i (some a)) R := by
  intro h
  exact ha ((h a).mpr ⟨i, Function.update_self ..⟩)

/-- Giving a handle up and the resource with it. -/
theorem Covers.unregister (h : Covers f R) (hx : Exclusive f) (hi : f i = some a) :
    Covers (Function.update f i none) (R \ {a}) := by
  intro b
  rw [Set.mem_sdiff, Set.mem_singleton_iff, h b, exists_update_iff]
  constructor
  · rintro ⟨⟨j, hj⟩, hba⟩
    refine .inr ⟨j, ?_, hj⟩
    rintro rfl
    exact hba (Option.some.inj (hj.symm.trans hi))
  · rintro (hnone | ⟨j, hne, hj⟩)
    · cases hnone
    · refine ⟨⟨j, hj⟩, ?_⟩
      rintro rfl
      exact hne (hx j i b hj hi)

theorem Exclusive.claim (h : Exclusive f) (ha : ¬ Besides f i a) :
    Exclusive (Function.update f i (some a)) := by
  intro j j' b hj hj'
  rcases update_eq_some hj with ⟨rfl, heq⟩ | ⟨hne, hold⟩
  · rcases update_eq_some hj' with ⟨rfl, -⟩ | ⟨hne', hold'⟩
    · rfl
    · obtain rfl := Option.some.inj heq
      exact absurd ⟨j', hne', hold'⟩ ha
  · rcases update_eq_some hj' with ⟨rfl, heq⟩ | ⟨-, hold'⟩
    · obtain rfl := Option.some.inj heq
      exact absurd ⟨j, hne, hold⟩ ha
    · exact h j j' b hold hold'

theorem Exclusive.release (h : Exclusive f) : Exclusive (Function.update f i none) := by
  intro j j' b hj hj'
  rcases update_eq_some hj with ⟨-, hnone⟩ | ⟨-, hold⟩
  · cases hnone
  · rcases update_eq_some hj' with ⟨-, hnone⟩ | ⟨-, hold'⟩
    · cases hnone
    · exact h j j' b hold hold'

theorem not_exclusive_claim (ha : Besides f i a) :
    ¬ Exclusive (Function.update f i (some a)) := by
  obtain ⟨j, hne, hj⟩ := ha
  intro h
  refine hne (h j i a ?_ (Function.update_self ..))
  rw [Function.update_of_ne hne, hj]

end Registry
