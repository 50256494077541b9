import DeployInventory.Proofs.Checked
import DeployInventory.Proofs.NameMap
import DeployInventory.Wire.Field
import Mathlib.Data.List.Nodup
/-!
# Proofs.Wire.Field — what taking the fields of an object gives

Where no key stands twice, the order of the fields does not count: each component of a structure is what the field with
its key reads as (`Taken`), also where the fields are taken one after the other (`Fills.foldlM`). Where what is written
reads as what it was written of, writing is injective and reading is not needed twice (`RoundTrips`).
-/
namespace DeployInventory
namespace Wire

variable {α β σ : Type} {fs : List (String × Json)} {key first : String} {read : Json → Decoded α}
  {start default a : α} {j : Json}

/-! ## Looking fields up -/

/-- The range of 64-bit integers. -/
def FitsInt64 (n : Int) : Prop := -(twoTo 63 : Int) ≤ n ∧ n < twoTo 63

theorem present_eq_ok (h : NameMap.valueOf? key fs = some j) (hj : read j = .ok a) :
    present fs key read = .ok (some a) := by
  rw [present, h]
  simp only [hj, Except.map]

theorem orDefault_eq_ok (h : NameMap.valueOf? key fs = some j) (hj : read j = .ok a) :
    orDefault fs key read default = .ok a := by
  rw [orDefault, present_eq_ok h hj]
  rfl

theorem optional_text {o : Option String} (h : NameMap.valueOf? key fs = some (.textOrNull o)) :
    optional fs key text = .ok o := by
  rw [optional, h]
  cases o <;> rfl

theorem optional_int64 {o : Option Int} (h : NameMap.valueOf? key fs = some (.integerOrNull o))
    (ho : ∀ n ∈ o, FitsInt64 n) : optional fs key int64 = .ok o := by
  rw [optional, h]
  cases o with
  | none => rfl
  | some n =>
    have hn : int64 (.integer n) = .ok n := if_pos (ho n rfl)
    simp only [Json.integerOrNull, Json.integer] at hn ⊢
    rw [hn]
    rfl

theorem list_texts (l : List String) : list text (.texts l) = .ok l := by
  rw [Json.texts, list, mapM_eq_ok_iff]
  induction l with
  | nil => exact .nil
  | cons s l ih => exact .cons rfl ih

/-! ## Components -/

/-- Reads a value, or nothing from `null`. -/
def orNull (read : Json → Decoded α) : Json → Decoded (Option α)
  | .null => .ok none
  | j => (read j).map some

theorem textOrNull_eq_orNull : textOrNull = orNull text := by
  funext j
  cases j <;> rfl

theorem textOrNull_textOrNull : ∀ o : Option String, textOrNull (.textOrNull o) = .ok o
  | none => rfl
  | some _ => rfl

theorem orNull_eq_ok (hnull : read .null = .error .shape) (h : read j = .ok a) :
    orNull read j = .ok (some a) := by
  cases j with
  | null =>
    rw [hnull] at h
    cases h
  | _ => rw [orNull, h, Except.map]; exact Json.noConfusion

/-- **What a component is after the fields of an object have been taken**: what the field with its key reads as, or as
before if there is no such field. -/
def Taken (fs : List (String × Json)) (key : String) (read : Json → Decoded α) (start a : α) : Prop :=
  match NameMap.valueOf? key fs with
  | none => a = start
  | some j => read j = .ok a

theorem taken_cons (hfirst : first ∉ fs.map Prod.fst) : Taken ((first, j) :: fs) key read start a ↔
    if first = key then read j = .ok a ∧ Taken fs key read a a else Taken fs key read start a := by
  by_cases h : first = key
  · subst h
    rw [Taken, Taken, NameMap.valueOf?.eq_2, if_pos rfl, if_pos rfl, NameMap.valueOf?_eq_none_iff.2 hfirst]
    simp
  · rw [Taken, NameMap.valueOf?.eq_2, if_neg h, if_neg h, Taken]

/-- A component whose field is written only where it has a value. -/
theorem taken_of_written {write : β → Json} {f : β → α} {o : Option β}
    (hkey : NameMap.valueOf? key fs = o.map write)
    (h : ∀ b, o = some b → orNull read (write b) = .ok (some (f b))) : Taken fs key (orNull read) none (o.map f) := by
  rw [Taken, hkey]
  cases ho : o with
  | none => rfl
  | some b => exact h b ho

theorem taken_of_inverse {write : α → Json} {o : Option α} (hkey : NameMap.valueOf? key fs = o.map write)
    (h : ∀ a, orNull read (write a) = .ok (some a)) : Taken fs key (orNull read) none o := by
  have := taken_of_written hkey fun a _ => h a
  rwa [Option.map_id'] at this

/-! ## Taking fields one by one -/

/-- **A component of a structure in the course of reading**: its key, how the field with the key reads, and where that
goes. -/
structure Slot (σ : Type) where
  {α : Type}
  key : String
  read : Json → Decoded α
  get : σ → α
  set : σ → α → σ

/-- **Every field goes into the slot with its key**, and fields without a slot do not count. -/
structure Fills (take : σ → String → Json → Decoded σ) (slots : List (Slot σ)) : Prop where
  distinct : (slots.map (·.key)).Nodup
  take_slot : ∀ s ∈ slots, ∀ d j, take d s.key j = (s.read j).map (s.set d)
  take_other : ∀ key, key ∉ slots.map (·.key) → ∀ d j, take d key j = .ok d
  get_set : ∀ s ∈ slots, ∀ d a, s.get (s.set d a) = a
  get_set_of_ne : ∀ s ∈ slots, ∀ t ∈ slots, s.key ≠ t.key → ∀ d a, t.get (s.set d a) = t.get d

namespace Fills

variable {take : σ → String → Json → Decoded σ} {slots : List (Slot σ)} {d last : σ}

/-- A field fills its slot and leaves the others to the fields that follow. -/
theorem step (h : Fills take slots) (hfirst : first ∉ fs.map Prod.fst)
    (htaken : ∀ s ∈ slots, Taken ((first, j) :: fs) s.key s.read (s.get d) (s.get last)) :
    ∃ d', take d first j = .ok d' ∧ ∀ s ∈ slots, Taken fs s.key s.read (s.get d') (s.get last) := by
  simp only [taken_cons hfirst] at htaken
  by_cases hslot : first ∈ slots.map (·.key)
  · obtain ⟨s, hs, rfl⟩ := List.mem_map.1 hslot
    have hs' := htaken s hs
    rw [if_pos rfl] at hs'
    obtain ⟨hread, hrest⟩ := hs'
    refine ⟨s.set d (s.get last), by rw [h.take_slot s hs, hread]; rfl, fun t ht => ?_⟩
    have ht' := htaken t ht
    by_cases hst : s.key = t.key
    · obtain rfl : s = t := List.inj_on_of_nodup_map h.distinct hs ht hst
      rwa [h.get_set s hs]
    · rw [if_neg hst] at ht'
      rwa [h.get_set_of_ne s hs t ht hst]
  · refine ⟨d, h.take_other first hslot d j, fun t ht => ?_⟩
    have ht' := htaken t ht
    rwa [if_neg fun heq => hslot (List.mem_map.2 ⟨t, ht, heq.symm⟩)] at ht'

/-- **Where no key stands twice, the order of the fields does not count.** -/
theorem foldlM (h : Fills take slots) : ∀ {fs : List (String × Json)} {d : σ}, (fs.map Prod.fst).Nodup →
    (∀ s ∈ slots, Taken fs s.key s.read (s.get d) (s.get last)) →
    ∃ d', fs.foldlM (fun d e => take d e.1 e.2) d = .ok d' ∧ ∀ s ∈ slots, s.get d' = s.get last
  | [], d, _, htaken => ⟨d, rfl, fun s hs => (htaken s hs).symm⟩
  | (key, j) :: fs, d, hfs, htaken => by
    obtain ⟨hkey, hfs⟩ := List.nodup_cons.1 hfs
    obtain ⟨d', htake, htaken⟩ := h.step hkey htaken
    rw [List.foldlM_cons, htake]
    exact h.foldlM hfs htaken

end Fills

/-! ## Round trips -/

/-- **What is written can be read again**: values come back in a normal form that is written as they are. -/
structure RoundTrips (write : α → Json) (read : Json → Decoded α) (normal : α → α) : Prop where
  read_write : ∀ a, read (write a) = .ok (normal a)
  write_normal : ∀ a, write (normal a) = write a

namespace RoundTrips

variable {write : α → Json} {normal : α → α}

theorem write_eq_iff (h : RoundTrips write read normal) {a b : α} : write a = write b ↔ normal a = normal b := by
  constructor
  · intro hab
    have hread := h.read_write a
    rw [hab, h.read_write b] at hread
    exact (Except.ok.inj hread).symm
  · intro hab
    rw [← h.write_normal a, hab, h.write_normal b]

/-- **What has been read and written again stays** when that is repeated. -/
theorem rewritten (h : RoundTrips write read normal) {j k : Json} (hj : (read j).map write = .ok k) :
    (read k).map write = .ok k := by
  obtain ⟨a, -, rfl⟩ := map_eq_ok_iff.1 hj
  exact map_eq_ok_iff.2 ⟨normal a, h.read_write a, h.write_normal a⟩

end RoundTrips

end Wire
end DeployInventory
