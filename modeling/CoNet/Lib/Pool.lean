import Mathlib.Data.Fintype.Card
import Mathlib.Data.List.Nodup
import Mathlib.Logic.Function.Basic

/-!
# A pool of ids, each free or held

Ids are in a list of free ones, or held by clients, one each at most. `Sound` says that nothing is
in two places, `Whole` that the ids of a set are in one place each. Taking a free id and giving a
held one back keep both; forgetting a held id, adding one that is not held by the giver, and
refilling the list while an id is held each break one.
-/

set_option autoImplicit false

namespace Pool

variable {ι κ : Type*}

/-- No id is in two places. -/
structure Sound (free : List ι) (held : κ → Option ι) : Prop where
  nodup : free.Nodup
  apart : ∀ c id, held c = some id → id ∉ free
  one : ∀ c c' id, held c = some id → held c' = some id → c = c'

/-- Every id of the set is in one place, and no other id is anywhere. -/
structure Whole (ids : ι → Prop) (free : List ι) (held : κ → Option ι) : Prop
    extends Sound free held where
  all : ∀ id, ids id ↔ id ∈ free ∨ ∃ c, held c = some id

variable {ids : ι → Prop} {free : List ι} {held : κ → Option ι} {c : κ} {id : ι}

/-- A full list, and no one who holds an id. -/
theorem Sound.full (nodup : free.Nodup) (none_held : ∀ c, held c = none) : Sound free held where
  nodup := nodup
  apart c id h := absurd ((none_held c).symm.trans h) (by simp)
  one c _ id h := absurd ((none_held c).symm.trans h) (by simp)

theorem Whole.full (nodup : free.Nodup) (none_held : ∀ c, held c = none) :
    Whole (· ∈ free) free held where
  toSound := .full nodup none_held
  all id := by
    refine ⟨.inl, ?_⟩
    rintro (h | ⟨c, hc⟩)
    · exact h
    · exact absurd ((none_held c).symm.trans hc) (by simp)

/-- **Giving what one does not hold puts an id in two places**, or adds one of no set. -/
theorem Whole.not_extra (whole : Whole ids free held) : ¬ Whole ids (free ++ [id]) held := by
  intro after
  have hid : ids id := (after.all id).mpr (.inl (List.mem_append_right _ (by simp)))
  rcases (whole.all id).mp hid with hx | ⟨d, hd⟩
  · exact (List.nodup_append.mp after.nodup).2.2 id hx id (by simp) rfl
  · exact after.apart d id hd (List.mem_append_right _ (by simp))

/-- With an empty list, only who holds what is left. -/
theorem Sound.empty (sound : Sound free held) : Sound [] held where
  nodup := List.nodup_nil
  apart _ _ _ := List.not_mem_nil
  one := sound.one

section Update

variable [DecidableEq κ]

/-- Who holds an id after one client's change. -/
theorem update_eq_some {v : Option ι} {d : κ} :
    Function.update held c v d = some id ↔ (d = c ∧ v = some id) ∨ (d ≠ c ∧ held d = some id) := by
  by_cases h : d = c
  · subst h
    simp
  · simp [h]

/-- A client that held nothing and holds nothing changes nothing. -/
theorem update_none (h : held c = none) : Function.update held c none = held := by
  rw [← h, Function.update_eq_self]

/-- A held id is forgotten: what is left is in one place at most. -/
theorem Sound.forget (sound : Sound free held) : Sound free (Function.update held c none) where
  nodup := sound.nodup
  apart d id h := by
    rcases update_eq_some.mp h with ⟨-, h⟩ | ⟨-, h⟩
    · cases h
    · exact sound.apart d id h
  one d d' id h h' := by
    rcases update_eq_some.mp h with ⟨-, h⟩ | ⟨-, h⟩
    · cases h
    · rcases update_eq_some.mp h' with ⟨-, h'⟩ | ⟨-, h'⟩
      · cases h'
      · exact sound.one d d' id h h'

/-- A client gives back what it held. -/
theorem Sound.giveBack (sound : Sound free held) (h : held c = some id) :
    Sound (free ++ [id]) (Function.update held c none) where
  nodup := by
    refine List.nodup_append.mpr ⟨sound.nodup, by simp, fun a ha b hb => ?_⟩
    obtain rfl := List.mem_singleton.mp hb
    rintro rfl
    exact sound.apart c a h ha
  apart d x hd := by
    rcases update_eq_some.mp hd with ⟨-, hd⟩ | ⟨hne, hd⟩
    · cases hd
    · intro hx
      rcases List.mem_append.mp hx with hx | hx
      · exact sound.apart d x hd hx
      · obtain rfl := List.mem_singleton.mp hx
        exact hne (sound.one d c x hd h)
  one := sound.forget.one

theorem Whole.giveBack (whole : Whole ids free held) (h : held c = some id) :
    Whole ids (free ++ [id]) (Function.update held c none) where
  toSound := whole.toSound.giveBack h
  all x := by
    rw [whole.all x]
    constructor
    · rintro (hx | ⟨d, hd⟩)
      · exact .inl (List.mem_append_left _ hx)
      · by_cases hdc : d = c
        · subst hdc
          exact .inl (List.mem_append_right _ (by simpa using Option.some.inj (hd.symm.trans h)))
        · exact .inr ⟨d, update_eq_some.mpr (.inr ⟨hdc, hd⟩)⟩
    · rintro (hx | ⟨d, hd⟩)
      · rcases List.mem_append.mp hx with hx | hx
        · exact .inl hx
        · obtain rfl := List.mem_singleton.mp hx
          exact .inr ⟨c, h⟩
      · rcases update_eq_some.mp hd with ⟨-, hd⟩ | ⟨-, hd⟩
        · cases hd
        · exact .inr ⟨d, hd⟩

/-- Forgetting a held id leaves it nowhere. -/
theorem Whole.not_forget (whole : Whole ids free held) (h : held c = some id) :
    ¬ Whole ids free (Function.update held c none) := by
  intro after
  rcases (after.all id).mp ((whole.all id).mpr (.inr ⟨c, h⟩)) with hx | ⟨d, hd⟩
  · exact whole.apart c id h hx
  · rcases update_eq_some.mp hd with ⟨-, hd⟩ | ⟨hne, hd⟩
    · cases hd
    · exact hne (whole.one d c id hd h)

variable [DecidableEq ι]

/-- A client takes a free id. -/
theorem Sound.take (sound : Sound free held) (hfree : id ∈ free) :
    Sound (free.erase id) (Function.update held c (some id)) where
  nodup := sound.nodup.erase id
  apart d x hd := by
    rcases update_eq_some.mp hd with ⟨-, hv⟩ | ⟨-, hv⟩
    · obtain rfl := Option.some.inj hv
      exact sound.nodup.not_mem_erase
    · exact fun hx => sound.apart d x hv (List.mem_of_mem_erase hx)
  one d d' x hd hd' := by
    rcases update_eq_some.mp hd with ⟨hdc, hv⟩ | ⟨-, hv⟩
    · rcases update_eq_some.mp hd' with ⟨hdc', -⟩ | ⟨-, hv'⟩
      · exact hdc.trans hdc'.symm
      · obtain rfl := Option.some.inj hv
        exact absurd hfree (sound.apart d' id hv')
    · rcases update_eq_some.mp hd' with ⟨-, hv'⟩ | ⟨-, hv'⟩
      · obtain rfl := Option.some.inj hv'
        exact absurd hfree (sound.apart d id hv)
      · exact sound.one d d' x hv hv'

theorem Whole.take (whole : Whole ids free held) (hfree : id ∈ free) (hc : held c = none) :
    Whole ids (free.erase id) (Function.update held c (some id)) where
  toSound := whole.toSound.take hfree
  all x := by
    rw [whole.all x, whole.nodup.mem_erase_iff]
    constructor
    · rintro (hx | ⟨d, hd⟩)
      · by_cases hxid : x = id
        · exact .inr ⟨c, update_eq_some.mpr (.inl ⟨rfl, congrArg some hxid.symm⟩)⟩
        · exact .inl ⟨hxid, hx⟩
      · have hdc : d ≠ c := fun h => absurd (hc.symm.trans (h ▸ hd)) (by simp)
        exact .inr ⟨d, update_eq_some.mpr (.inr ⟨hdc, hd⟩)⟩
    · rintro (⟨-, hx⟩ | ⟨d, hd⟩)
      · exact .inl hx
      · rcases update_eq_some.mp hd with ⟨-, hd⟩ | ⟨-, hd⟩
        · cases hd
          exact .inl hfree
        · exact .inr ⟨d, hd⟩

end Update

/-! ## One place, by counting -/

/-- The id is free once and held by no one, or held by one client and not free. -/
def OnePlace [BEq ι] (free : List ι) (held : κ → Option ι) (id : ι) : Prop :=
  (free.count id = 1 ∧ ∀ c, held c ≠ some id) ∨ (free.count id = 0 ∧ ∃! c, held c = some id)

/-- A pool is whole exactly when the ids of the set are in one place each and no other is free or
held. -/
theorem whole_iff_onePlace [BEq ι] [LawfulBEq ι] :
    Whole ids free held ↔
      (∀ id, ids id → OnePlace free held id) ∧
        ∀ id, ¬ ids id → id ∉ free ∧ ∀ c, held c ≠ some id := by
  constructor
  · intro whole
    refine ⟨fun id hid => ?_, fun id hid => ?_⟩
    · rcases (whole.all id).mp hid with hx | ⟨c, hc⟩
      · exact .inl ⟨List.nodup_iff_count_eq_one.mp whole.nodup id hx,
          fun c hc => whole.apart c id hc hx⟩
      · exact .inr ⟨List.count_eq_zero_of_not_mem (whole.apart c id hc), c, hc,
          fun d hd => whole.one d c id hd hc⟩
    · exact ⟨fun hx => hid ((whole.all id).mpr (.inl hx)),
        fun c hc => hid ((whole.all id).mpr (.inr ⟨c, hc⟩))⟩
  · rintro ⟨place, other⟩
    have free_place : ∀ id ∈ free, free.count id = 1 ∧ ∀ c, held c ≠ some id := by
      intro id hx
      have hid : ids id := by
        by_contra hid
        exact (other id hid).1 hx
      exact (place id hid).resolve_right fun h => List.count_eq_zero.mp h.1 hx
    have held_place : ∀ c id, held c = some id → ids id ∧ ∃! c, held c = some id := by
      intro c id hc
      have hid : ids id := by
        by_contra hid
        exact (other id hid).2 c hc
      exact ⟨hid, ((place id hid).resolve_left fun h => h.2 c hc).2⟩
    refine ⟨⟨?_, ?_, ?_⟩, fun id => ⟨fun hid => ?_, ?_⟩⟩
    · exact List.nodup_iff_count_eq_one.mpr fun id hx => (free_place id hx).1
    · exact fun c id hc hx => (free_place id hx).2 c hc
    · exact fun c c' id hc hc' => (held_place c id hc).2.unique hc hc'
    · rcases place id hid with ⟨hcount, -⟩ | ⟨-, c, hc, -⟩
      · exact .inl (List.count_pos_iff.mp (by omega))
      · exact .inr ⟨c, hc⟩
    · rintro (hx | ⟨c, hc⟩)
      · by_contra hid
        exact (other id hid).1 hx
      · exact (held_place c id hc).1

/-! ## Ids below a number -/

section Below

variable {n : Nat} {free : List Nat} {held : κ → Option Nat} {c : κ} {id : Nat}

/-- While an id is held, the list is not full. -/
theorem Sound.length_lt (sound : Sound free held) (h : held c = some id) (lt : id < n)
    (free_lt : ∀ id ∈ free, id < n) : free.length < n := by
  have nodup : (id :: free).Nodup := List.nodup_cons.mpr ⟨sound.apart c id h, sound.nodup⟩
  have below : id :: free ⊆ List.range n := by
    intro x mem
    rcases List.mem_cons.mp mem with rfl | mem
    · exact List.mem_range.mpr lt
    · exact List.mem_range.mpr (free_lt x mem)
  have le := (nodup.subperm below).length_le
  rwa [List.length_cons, List.length_range] at le

/-- **Clients that are not more than the ids find a free one.** -/
theorem Whole.free_ne_nil [Fintype κ] (whole : Whole (· < n) free held)
    (enough : Fintype.card κ ≤ n) (none_held : held c = none) : free ≠ [] := by
  intro empty
  have holder : ∀ i : Fin n, ∃ d, held d = some i.val := fun i =>
    ((whole.all i).mp i.isLt).resolve_left (empty ▸ List.not_mem_nil)
  choose f hf using holder
  have injective : Function.Injective f := by
    intro i j same
    have eq := hf i
    rw [same, hf j] at eq
    exact Fin.ext (Option.some.inj eq.symm)
  have other : ¬ Function.Surjective f := by
    intro surjective
    obtain ⟨i, rfl⟩ := surjective c
    rw [hf i] at none_held
    cases none_held
  have lt := Fintype.card_lt_of_injective_not_surjective f injective other
  rw [Fintype.card_fin] at lt
  exact absurd enough (Nat.not_le.mpr lt)

end Below

end Pool
