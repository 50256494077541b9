import DeployInventory.Proofs.Offences
import DeployInventory.Proofs.Variable.Wire
/-!
# Proofs.Variable.Conversion — how the conversion of a flat object fails

A flat object describes a variable when the field that its kind selects is set, is a text for a sealed payload, and all
flat objects in the list or map that it selects describe variables. Otherwise the error is that of the first offence,
depth first: list order, keys of a map ascending, and a flat object before those within it (`judged_toVariable`).
-/
namespace DeployInventory

/-- The key of the field that carries the payload. -/
def VariableKind.payloadKey : VariableKind → String
  | .encrypted => "value"
  | k => k.name

namespace VariableWire

open Offences

/-! ## Payloads -/

/-- Whether the field that the kind selects is set. -/
def payloadIsSet (w : VariableWire) : Bool :=
  match w.kind with
  | .value => w.value.isSome
  | .reference => w.reference.isSome
  | .list => w.list.isSome
  | .map => w.map.isSome
  | .closure => w.closure.isSome
  | .encrypted => w.value.isSome

/-- A step from a flat object to one within it. -/
inductive Step where
  | item (i : Nat)
  | entry (key : String)

/-- **The order of steps**: positions in a list and keys of a map ascend. -/
inductive Step.Before : Step → Step → Prop
  | item {i j : Nat} (h : i < j) : Before (.item i) (.item j)
  | entry {k l : String} (h : k < l) : Before (.entry k) (.entry l)

instance : Std.Asymm Step.Before where
  asymm s t hst hts := by
    cases hst with
    | item h =>
      cases hts with
      | item h' => omega
    | entry h =>
      cases hts with
      | entry h' => exact String.lt_asymm h h'

/-- **The flat objects that the kind of one selects.** -/
inductive Selects (w : VariableWire) : Step → VariableWire → Prop
  | item {items : List VariableWire} {i : Nat} {x : VariableWire} (hk : w.kind = .list) (hl : w.list = some items)
      (hx : items[i]? = some x) : Selects w (.item i) x
  | entry {entries : List (String × VariableWire)} {key : String} {x : VariableWire} (hk : w.kind = .map)
      (hm : w.map = some entries) (hx : (key, x) ∈ entries) : Selects w (.entry key) x

/-- **A flat object that describes a variable**: the selected field is set, it is a text where it is sealed, and all
that it selects is acceptable. -/
inductive Acceptable : VariableWire → Prop
  | intro {w : VariableWire} (payload : w.payloadIsSet = true)
      (text : w.kind = .encrypted → ∃ ciphertext, w.value = some (.string ciphertext))
      (selected : ∀ s x, w.Selects s x → Acceptable x) : Acceptable w

/-- **What is wrong with a flat object**, at the end of selected steps. -/
inductive Offends : VariableWire → Offences Step WireError
  | missing {w : VariableWire} (h : w.payloadIsSet = false) :
      Offends w [] (.missingPayload w.kind w.kind.payloadKey)
  | notText {w : VariableWire} {j : Json} (hk : w.kind = .encrypted) (hv : w.value = some j)
      (hj : ∀ ciphertext, j ≠ .string ciphertext) : Offends w [] (.encryptedNotText (w.name.getD ""))
  | within {w x : VariableWire} {s : Step} {p : List Step} {e : WireError} (hs : w.Selects s x)
      (hx : Offends x p e) : Offends w (s :: p) e

/-- The keys of all maps ascend. -/
inductive KeysAscend : VariableWire → Prop
  | intro {w : VariableWire} (items : ∀ l, w.list = some l → ∀ x ∈ l, KeysAscend x)
      (keys : ∀ l, w.map = some l → l.Pairwise fun a b => a.1 < b.1)
      (entries : ∀ l, w.map = some l → ∀ e ∈ l, KeysAscend e.2) : KeysAscend w

/-! ## The conversion, kind by kind -/

variable {w : VariableWire} {α : Type}

/-- What a field holds that has to be set. -/
def demanded (w : VariableWire) : Option α → Except WireError α
  | some a => .ok a
  | none => .error (.missingPayload w.kind w.kind.payloadKey)

/-- The text of a sealed payload. -/
def sealedText (w : VariableWire) : Json → Except WireError String
  | .string ciphertext => .ok ciphertext
  | _ => .error (.encryptedNotText (w.name.getD ""))

theorem sealedText_of_ne {j : Json} (hj : ∀ ciphertext, j ≠ .string ciphertext) :
    w.sealedText j = .error (.encryptedNotText (w.name.getD "")) := by
  cases j with
  | string ciphertext => exact absurd rfl (hj ciphertext)
  | _ => rfl

theorem toVariables_eq_mapM : ∀ l : List VariableWire, toVariables l = l.mapM toVariable
  | [] => by
    rw [toVariables]
    rfl
  | x :: rest => by rw [toVariables, toVariables_eq_mapM rest, List.mapM_cons]

theorem toEntries_eq_mapM : ∀ l : List (String × VariableWire),
    toEntries l = l.mapM fun e => (toVariable e.2).map (e.1, ·)
  | [] => by
    rw [toEntries]
    rfl
  | (key, x) :: rest => by
    rw [toEntries, toEntries_eq_mapM rest, List.mapM_cons]
    cases toVariable x <;> rfl

theorem toVariable_of_value (hk : w.kind = .value) : w.toVariable = (w.demanded w.value).map .value := by
  obtain ⟨_, _, kind, value, _, _, _, _, _⟩ := w
  subst hk
  cases value <;> rw [toVariable] <;> rfl

theorem toVariable_of_reference (hk : w.kind = .reference) :
    w.toVariable = (w.demanded w.reference).map .reference := by
  obtain ⟨_, _, kind, _, reference, _, _, _, _⟩ := w
  subst hk
  cases reference <;> rw [toVariable] <;> rfl

theorem toVariable_of_list (hk : w.kind = .list) :
    w.toVariable = (w.demanded w.list >>= fun l => l.mapM toVariable).map .list := by
  obtain ⟨_, _, kind, _, _, list, _, _, _⟩ := w
  subst hk
  cases list with
  | none =>
    rw [toVariable]
    rfl
  | some l =>
    rw [toVariable, toVariables_eq_mapM]
    rfl

theorem toVariable_of_map (hk : w.kind = .map) :
    w.toVariable = (w.demanded w.map >>= fun l => l.mapM fun e => (toVariable e.2).map (e.1, ·)).map .map := by
  obtain ⟨_, _, kind, _, _, _, map, _, _⟩ := w
  subst hk
  cases map with
  | none =>
    rw [toVariable]
    rfl
  | some l =>
    rw [toVariable, toEntries_eq_mapM]
    rfl

theorem toVariable_of_closure (hk : w.kind = .closure) : w.toVariable = (w.demanded w.closure).map .closure := by
  obtain ⟨_, _, kind, _, _, _, _, closure, _⟩ := w
  subst hk
  cases closure <;> rw [toVariable] <;> rfl

theorem toVariable_of_encrypted (hk : w.kind = .encrypted) :
    w.toVariable = (w.demanded w.value >>= w.sealedText).map (.encrypted · w.option) := by
  obtain ⟨_, _, kind, value, _, _, _, _, _⟩ := w
  subst hk
  cases value with
  | none =>
    rw [toVariable]
    rfl
  | some j =>
    cases j with
    | string ciphertext =>
      rw [toVariable]
      rfl
    | _ =>
      rw [toVariable]
      · rfl
      · simp

/-! ## The first offence -/

theorem Selects.payloadIsSet {s : Step} {x : VariableWire} (h : w.Selects s x) : w.payloadIsSet = true := by
  cases h with
  | item hk hl hx => simp [VariableWire.payloadIsSet, hk, hl]
  | entry hk hm hx => simp [VariableWire.payloadIsSet, hk, hm]

theorem judged_missing (h : w.payloadIsSet = false) :
    Judged Step.Before w.Offends (.error (.missingPayload w.kind w.kind.payloadKey) : Except WireError α) := by
  refine judged_error fun q e => ?_
  constructor
  · intro hq
    cases hq with
    | missing _ => exact ⟨rfl, rfl⟩
    | notText hk hv _ => simp [payloadIsSet, hk, hv] at h
    | within hs _ => simp [hs.payloadIsSet] at h
  · rintro ⟨rfl, rfl⟩
    exact .missing h

/-- A field alone decides where the kind is not one of those that look further. -/
theorem judged_demanded {field : Option α} (hset : w.payloadIsSet = field.isSome) (hsealed : w.kind ≠ .encrypted)
    (hlist : w.kind ≠ .list) (hmap : w.kind ≠ .map) : Judged Step.Before w.Offends (w.demanded field) := by
  cases field with
  | none => exact judged_missing hset
  | some a =>
    refine judged_ok fun q e hq => ?_
    cases hq with
    | missing hmissing => simp [hset] at hmissing
    | notText hk _ _ => exact hsealed hk
    | within hs _ =>
      cases hs with
      | item hk _ _ => exact hlist hk
      | entry hk _ _ => exact hmap hk

theorem offends_of_encrypted {j : Json} (hk : w.kind = .encrypted) (hv : w.value = some j) (p : List Step)
    (e : WireError) : w.Offends p e ↔
      p = [] ∧ e = .encryptedNotText (w.name.getD "") ∧ ∀ ciphertext, j ≠ .string ciphertext := by
  constructor
  · intro h
    cases h with
    | missing hset => simp [payloadIsSet, hk, hv] at hset
    | notText _ hv' hj =>
      rw [hv, Option.some.injEq] at hv'
      subst hv'
      exact ⟨rfl, rfl, hj⟩
    | within hs _ =>
      cases hs with
      | item hk' _ _ => simp [hk] at hk'
      | entry hk' _ _ => simp [hk] at hk'
  · rintro ⟨rfl, rfl, hj⟩
    exact .notText hk hv hj

theorem judged_sealedText {j : Json} (hk : w.kind = .encrypted) (hv : w.value = some j) :
    Judged Step.Before w.Offends (w.sealedText j) := by
  by_cases hj : ∃ ciphertext, j = .string ciphertext
  · obtain ⟨c, rfl⟩ := hj
    refine judged_ok fun p e h => ?_
    exact ((offends_of_encrypted hk hv p e).1 h).2.2 c rfl
  · have hj : ∀ c, j ≠ .string c := fun c hc => hj ⟨c, hc⟩
    rw [sealedText_of_ne hj]
    refine judged_error fun p e => ?_
    rw [offends_of_encrypted hk hv]
    simp [hj]

theorem offends_of_list {items : List VariableWire} (hk : w.kind = .list) (hl : w.list = some items) (p : List Step)
    (e : WireError) : ofMembers Step.item items Offends p e ↔ w.Offends p e := by
  constructor
  · rintro ⟨i, x, q, rfl, hx, hq⟩
    exact .within (.item hk hl hx) hq
  · intro h
    cases h with
    | missing hset => simp [payloadIsSet, hk, hl] at hset
    | notText hk' _ _ => simp [hk] at hk'
    | within hs hq =>
      cases hs with
      | item _ hl' hx =>
        rw [hl, Option.some.injEq] at hl'
        subst hl'
        exact ⟨_, _, _, rfl, hx, hq⟩
      | entry hk' _ _ => simp [hk] at hk'

theorem offends_of_map {entries : List (String × VariableWire)} (hk : w.kind = .map) (hm : w.map = some entries)
    (p : List Step) (e : WireError) :
    ofParts (entries.map fun c => (Step.entry c.1, c)) (fun c => Offends c.2) p e ↔ w.Offends p e := by
  constructor
  · rintro ⟨s, c, q, rfl, hc, hq⟩
    obtain ⟨c', hc', heq⟩ := List.mem_map.1 hc
    rw [Prod.mk.injEq] at heq
    obtain ⟨rfl, rfl⟩ := heq
    exact .within (.entry hk hm hc') hq
  · intro h
    cases h with
    | missing hset => simp [payloadIsSet, hk, hm] at hset
    | notText hk' _ _ => simp [hk] at hk'
    | within hs hq =>
      cases hs with
      | item hk' _ _ => simp [hk] at hk'
      | entry _ hm' hx =>
        rw [hm, Option.some.injEq] at hm'
        subst hm'
        exact ⟨_, _, _, rfl, List.mem_map.2 ⟨_, hx, rfl⟩, hq⟩

/-- **The conversion fails with the first offence**, and not at all where nothing is wrong. -/
theorem judged_toVariable (w : VariableWire) : w.KeysAscend → Judged Step.Before w.Offends w.toVariable := by
  induction w using induction with
  | step w hitems hentries =>
    intro hw
    obtain ⟨hwitems, hkeys, hwentries⟩ := hw
    cases hk : w.kind with
    | value =>
      rw [toVariable_of_value hk]
      exact (judged_demanded (by simp [payloadIsSet, hk]) (by simp [hk]) (by simp [hk]) (by simp [hk])).map
    | reference =>
      rw [toVariable_of_reference hk]
      exact (judged_demanded (by simp [payloadIsSet, hk]) (by simp [hk]) (by simp [hk]) (by simp [hk])).map
    | list =>
      rw [toVariable_of_list hk]
      refine Judged.map ?_
      cases hl : w.list with
      | none => exact judged_missing (by simp [payloadIsSet, hk, hl])
      | some items =>
        have hmembers : Judged Step.Before (ofMembers Step.item items Offends) (items.mapM toVariable) :=
          Judged.mapM_members (fun _ _ h => .item h) fun x hx => hitems items hl x hx (hwitems items hl x hx)
        exact hmembers.congr (offends_of_list hk hl)
    | map =>
      rw [toVariable_of_map hk]
      refine Judged.map ?_
      cases hm : w.map with
      | none => exact judged_missing (by simp [payloadIsSet, hk, hm])
      | some entries =>
        have horder : (entries.map fun c => (Step.entry c.1, c)).Pairwise fun c d => Step.Before c.1 d.1 := by
          rw [List.pairwise_map]
          exact (hkeys entries hm).imp fun h => .entry h
        have hparts : Judged Step.Before (ofParts (entries.map fun c => (Step.entry c.1, c)) fun c => Offends c.2)
            ((entries.map fun c => (Step.entry c.1, c)).mapM fun c => (toVariable c.2.2).map (c.2.1, ·)) := by
          refine Judged.mapM (f := fun c : String × VariableWire => (toVariable c.2).map (c.1, ·)) horder fun c hc => ?_
          obtain ⟨d, hd, rfl⟩ := List.mem_map.1 hc
          exact (hentries entries hm d hd (hwentries entries hm d hd)).map
        rw [List.mapM_map] at hparts
        exact hparts.congr (offends_of_map hk hm)
    | closure =>
      rw [toVariable_of_closure hk]
      exact (judged_demanded (by simp [payloadIsSet, hk]) (by simp [hk]) (by simp [hk]) (by simp [hk])).map
    | encrypted =>
      rw [toVariable_of_encrypted hk]
      refine Judged.map ?_
      cases hv : w.value with
      | none => exact judged_missing (by simp [payloadIsSet, hk, hv])
      | some j => exact judged_sealedText hk hv

theorem acceptable_iff (w : VariableWire) : w.Acceptable ↔ ∀ p e, ¬ w.Offends p e := by
  constructor
  · intro h p e hoff
    induction hoff with
    | missing hset =>
      obtain ⟨hpayload, -, -⟩ := h
      simp [hpayload] at hset
    | notText hk hv hj =>
      obtain ⟨-, htext, -⟩ := h
      obtain ⟨c, hc⟩ := htext hk
      rw [hv, Option.some.injEq] at hc
      exact hj c hc
    | within hs _ ih =>
      obtain ⟨-, -, hselected⟩ := h
      exact ih (hselected _ _ hs)
  · induction w using induction with
    | step w hitems hentries =>
      intro hnone
      refine ⟨?_, fun hk => ?_, fun s x hs => ?_⟩
      · by_contra hset
        exact hnone _ _ (.missing (by simpa using hset))
      · cases hv : w.value with
        | none => exact absurd (.missing (by simp [payloadIsSet, hk, hv])) (hnone [] _)
        | some j =>
          by_contra hj
          exact hnone _ _ (.notText hk hv fun c hc => hj ⟨c, by rw [hc]⟩)
      · have hx : ∀ p e, ¬ x.Offends p e := fun p e hp => hnone _ _ (.within hs hp)
        cases hs with
        | item _ hl hi => exact hitems _ hl x (List.mem_of_getElem? hi) hx
        | entry _ hm he => exact hentries _ hm _ he hx

end VariableWire
end DeployInventory
