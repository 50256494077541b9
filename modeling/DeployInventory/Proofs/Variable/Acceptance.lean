import DeployInventory.Proofs.Variable.KeyOrder
/-!
# Proofs.Variable.Acceptance — which flat objects describe variables, and which variables

Of a flat object only the fields count that the kinds select: flat objects that agree on those are converted alike, up
to a name in the error (`toVariable_congr`), and a flat object describes the variable whose own flat object it agrees
with (`toVariable_eq_ok_iff`).
-/
namespace DeployInventory

/-- The error without the name in it. -/
def WireError.unnamed : WireError → WireError
  | .encryptedNotText _ => .encryptedNotText ""
  | e => e

namespace VariableWire

open Offences

/-- **Flat objects that agree on the selected fields**, at every level. -/
inductive Agree : VariableWire → VariableWire → Prop
  | unset {w w' : VariableWire} (hk : w.kind = w'.kind) (h : w.payloadIsSet = false) (h' : w'.payloadIsSet = false) :
      Agree w w'
  | value {w w' : VariableWire} (hk : w.kind = .value) (hk' : w'.kind = .value) (h : w.value = w'.value) : Agree w w'
  | reference {w w' : VariableWire} (hk : w.kind = .reference) (hk' : w'.kind = .reference)
      (h : w.reference = w'.reference) : Agree w w'
  | list {w w' : VariableWire} {l l' : List VariableWire} (hk : w.kind = .list) (hk' : w'.kind = .list)
      (hl : w.list = some l) (hl' : w'.list = some l') (h : List.Forall₂ Agree l l') : Agree w w'
  | map {w w' : VariableWire} {l l' : List (String × VariableWire)} (hk : w.kind = .map) (hk' : w'.kind = .map)
      (hm : w.map = some l) (hm' : w'.map = some l') (keys : l.map Prod.fst = l'.map Prod.fst)
      (h : List.Forall₂ Agree (l.map Prod.snd) (l'.map Prod.snd)) : Agree w w'
  | closure {w w' : VariableWire} (hk : w.kind = .closure) (hk' : w'.kind = .closure) (h : w.closure = w'.closure) :
      Agree w w'
  | encrypted {w w' : VariableWire} (hk : w.kind = .encrypted) (hk' : w'.kind = .encrypted)
      (h : w.value = w'.value) (key : w.option = w'.option) : Agree w w'

variable {w w' : VariableWire}

theorem demanded_congr {α : Type} (hk : w.kind = w'.kind) (field : Option α) :
    w.demanded field = w'.demanded field := by
  cases field with
  | none => rw [demanded, demanded, hk]
  | some a => rfl

theorem unnamed_sealedText (j : Json) :
    (w.sealedText j).mapError WireError.unnamed = (w'.sealedText j).mapError WireError.unnamed := by
  cases j <;> rfl

theorem toVariable_of_unset (h : w.payloadIsSet = false) :
    w.toVariable = .error (.missingPayload w.kind w.kind.payloadKey) := by
  cases hk : w.kind with
  | value =>
    have hv : w.value = none := by simpa [payloadIsSet, hk] using h
    rw [toVariable_of_value hk, hv, demanded, hk]
    rfl
  | reference =>
    have hr : w.reference = none := by simpa [payloadIsSet, hk] using h
    rw [toVariable_of_reference hk, hr, demanded, hk]
    rfl
  | list =>
    have hl : w.list = none := by simpa [payloadIsSet, hk] using h
    rw [toVariable_of_list hk, hl, demanded, hk]
    rfl
  | map =>
    have hm : w.map = none := by simpa [payloadIsSet, hk] using h
    rw [toVariable_of_map hk, hm, demanded, hk]
    rfl
  | closure =>
    have hc : w.closure = none := by simpa [payloadIsSet, hk] using h
    rw [toVariable_of_closure hk, hc, demanded, hk]
    rfl
  | encrypted =>
    have hv : w.value = none := by simpa [payloadIsSet, hk] using h
    rw [toVariable_of_encrypted hk, hv, demanded, hk]
    rfl

/-- **What a flat object describes depends on the selected fields only.** -/
theorem toVariable_congr (w : VariableWire) : ∀ w', Agree w w' →
    w.toVariable.mapError WireError.unnamed = w'.toVariable.mapError WireError.unnamed := by
  induction w using induction with
  | step w hitems hentries =>
    intro w' h
    cases h with
    | unset hk h h' => rw [toVariable_of_unset h, toVariable_of_unset h', hk]
    | value hk hk' h => rw [toVariable_of_value hk, toVariable_of_value hk', h, demanded_congr (hk.trans hk'.symm)]
    | reference hk hk' h =>
      rw [toVariable_of_reference hk, toVariable_of_reference hk', h, demanded_congr (hk.trans hk'.symm)]
    | @list _ _ l l' hk hk' hl hl' h =>
      have hall : List.Forall₂ (fun x x' => (toVariable x).mapError WireError.unnamed =
          (toVariable x').mapError WireError.unnamed) l l' := forall₂_of_mem h fun x hx x' => hitems l hl x hx x'
      rw [toVariable_of_list hk, toVariable_of_list hk', hl, hl', mapError_map, mapError_map]
      refine congrArg _ ?_
      show (l.mapM toVariable).mapError WireError.unnamed = (l'.mapM toVariable).mapError WireError.unnamed
      rw [mapError_mapM, mapError_mapM, mapM_eq_of_forall₂ hall]
    | @map _ _ l l' hk hk' hm hm' hkeys h =>
      have hall : List.Forall₂ (fun e e' => ((toVariable e.2).map (e.1, ·)).mapError WireError.unnamed =
          ((toVariable e'.2).map (e'.1, ·)).mapError WireError.unnamed) l l' := by
        refine forall₂_of_mem (forall₂_of_map_fst_snd hkeys h) fun e he e' => ?_
        rintro ⟨hkey, hagree⟩
        rw [mapError_map, mapError_map, hentries l hm e he e'.2 hagree, hkey]
      rw [toVariable_of_map hk, toVariable_of_map hk', hm, hm', mapError_map, mapError_map]
      refine congrArg _ ?_
      show (l.mapM fun e => (toVariable e.2).map (e.1, ·)).mapError WireError.unnamed =
        (l'.mapM fun e => (toVariable e.2).map (e.1, ·)).mapError WireError.unnamed
      rw [mapError_mapM, mapError_mapM, mapM_eq_of_forall₂ hall]
    | closure hk hk' h =>
      rw [toVariable_of_closure hk, toVariable_of_closure hk', h, demanded_congr (hk.trans hk'.symm)]
    | encrypted hk hk' h hkey =>
      rw [toVariable_of_encrypted hk, toVariable_of_encrypted hk', h, hkey, demanded_congr (hk.trans hk'.symm),
        mapError_map, mapError_map, mapError_bind, mapError_bind]
      have hsealed : ∀ j, (w.sealedText j).mapError WireError.unnamed = (w'.sealedText j).mapError WireError.unnamed :=
        unnamed_sealedText
      simp only [hsealed]

theorem demanded_eq_ok_iff {α : Type} {field : Option α} {a : α} : w.demanded field = .ok a ↔ field = some a := by
  cases field with
  | none => simp [demanded]
  | some b => simp [demanded]

theorem sealedText_eq_ok_iff {j : Json} {ciphertext : String} :
    w.sealedText j = .ok ciphertext ↔ j = .string ciphertext := by
  cases j <;> simp [sealedText]

/-- **A flat object describes the variable whose flat object it agrees with.** -/
theorem toVariable_eq_ok_iff (w : VariableWire) : ∀ v, w.toVariable = .ok v ↔ Agree w (ofVariable v) := by
  intro v
  constructor
  · induction w using induction generalizing v with
    | step w hitems hentries =>
      intro h
      cases hk : w.kind with
      | value =>
        rw [toVariable_of_value hk, map_eq_ok_iff] at h
        obtain ⟨j, hj, rfl⟩ := h
        exact .value hk rfl (demanded_eq_ok_iff.1 hj)
      | reference =>
        rw [toVariable_of_reference hk, map_eq_ok_iff] at h
        obtain ⟨name, hname, rfl⟩ := h
        exact .reference hk rfl (demanded_eq_ok_iff.1 hname)
      | list =>
        rw [toVariable_of_list hk, map_eq_ok_iff] at h
        obtain ⟨vs, hvs, rfl⟩ := h
        obtain ⟨l, hl, hvs⟩ := bind_eq_ok_iff.1 hvs
        rw [demanded_eq_ok_iff] at hl
        have hwritten : (ofVariable (.list vs)).list = some (ofVariables vs) := rfl
        refine .list hk rfl hl hwritten ?_
        rw [ofVariables_eq_map, List.forall₂_map_right_iff]
        exact forall₂_of_mem (mapM_eq_ok_iff.1 hvs) fun x hx v hv => hitems l hl x hx v hv
      | map =>
        rw [toVariable_of_map hk, map_eq_ok_iff] at h
        obtain ⟨es, hes, rfl⟩ := h
        obtain ⟨l, hl, hes⟩ := bind_eq_ok_iff.1 hes
        rw [demanded_eq_ok_iff] at hl
        have hall := mapM_eq_ok_iff.1 hes
        have hwritten : (ofVariable (.map es)).map = some (ofEntries es) := rfl
        refine .map hk rfl hl hwritten ?_ ?_
        · rw [ofEntries_eq_map, List.map_map, ← List.forall₂_eq_eq_eq, List.forall₂_map_left_iff,
            List.forall₂_map_right_iff]
          refine hall.imp fun e c hc => ?_
          obtain ⟨v, -, rfl⟩ := map_eq_ok_iff.1 hc
          rfl
        · rw [ofEntries_eq_map, List.map_map, List.forall₂_map_left_iff, List.forall₂_map_right_iff]
          refine forall₂_of_mem hall fun e he c hc => ?_
          obtain ⟨v, hv, rfl⟩ := map_eq_ok_iff.1 hc
          exact hentries l hl e he v hv
      | closure =>
        rw [toVariable_of_closure hk, map_eq_ok_iff] at h
        obtain ⟨source, hsource, rfl⟩ := h
        exact .closure hk rfl (demanded_eq_ok_iff.1 hsource)
      | encrypted =>
        rw [toVariable_of_encrypted hk, map_eq_ok_iff] at h
        obtain ⟨ciphertext, hc, rfl⟩ := h
        obtain ⟨j, hj, hc⟩ := bind_eq_ok_iff.1 hc
        rw [sealedText_eq_ok_iff] at hc
        subst hc
        exact .encrypted hk rfl (demanded_eq_ok_iff.1 hj) rfl
  · intro h
    have hcongr := toVariable_congr w _ h
    rw [toVariable_ofVariable] at hcongr
    exact mapError_eq_ok_iff.1 hcongr

/-- **The conversion accepts what describes a variable and nothing else.** A flat object that is read from a document
in key order has the keys of its maps ascending. Such a flat object is converted just when it is acceptable, and else
the error is that of the first offence, depth first. The variable is the one whose own flat object it agrees with on the
selected fields, and flat objects that agree on those are converted alike, up to the name in the error. -/
theorem toVariable_decides (w : VariableWire) :
    (∀ (inRecord : Bool) (j : Json), ofJson inRecord j.sorted = .ok w → w.KeysAscend) ∧
    (w.KeysAscend →
      (Succeeds w.toVariable ↔ w.Acceptable) ∧
      ∀ e, w.toVariable = .error e ↔ ∃ p, First Step.Before w.Offends p e) ∧
    (∀ v, w.toVariable = .ok v ↔ Agree w (ofVariable v)) ∧
    ∀ w', Agree w w' →
      w.toVariable.mapError WireError.unnamed = w'.toVariable.mapError WireError.unnamed := by
  refine ⟨fun inRecord j => keysAscend_of_ofJson, fun hw => ?_, toVariable_eq_ok_iff w, toVariable_congr w⟩
  have hjudged := judged_toVariable w hw
  exact ⟨hjudged.succeeds_iff.trans (acceptable_iff w).symm, fun e => hjudged.eq_error_iff⟩

/-- A sealed payload that is a number. -/
def sealedNumber : VariableWire := { blank .encrypted with name := some "key", value := some (.integer 5) }

/-- Two lists, the first with a sealed number in it, the second without its items. -/
def brokenLists : Json :=
  .object [("map", .object
    [("hosts", .object [("list", .array
        [.object [("type", .string "variable"), ("value", .null), ("variable", .string "web")],
          .object [("name", .string "key"), ("type", .string "encrypted"), ("value", .integer 5)]]),
        ("type", .string "list")]),
      ("ports", .object [("type", .string "list")])]), ("type", .string "map")]

/-- The flat object of the lists. -/
def brokenMap : VariableWire :=
  { blank .map with
    map := some [("hosts", { blank .list with
        list := some [{ blank .reference with reference := some "web", value := some .null }, sealedNumber] }),
      ("ports", blank .list)] }

theorem brokenMap_decides : ofJson false brokenLists.sorted = .ok brokenMap ∧
    brokenMap.toVariable = .error (.encryptedNotText "key") ∧ ¬ brokenMap.Acceptable ∧
    (∃ p, First Step.Before brokenMap.Offends p (.encryptedNotText "key")) ∧
    sealedNumber.toVariable.mapError WireError.unnamed =
      { sealedNumber with name := none, closure := some "web" }.toVariable.mapError WireError.unnamed := by
  have hsorted : brokenLists.sorted = brokenLists := by rfl
  have hread : ofJson false brokenLists.sorted = .ok brokenMap := by
    rw [hsorted]
    cbv
  have hsealed : sealedNumber.toVariable = .error (.encryptedNotText "key") := by
    rw [toVariable_of_encrypted rfl]
    rfl
  have herror : brokenMap.toVariable = .error (.encryptedNotText "key") := by
    simp only [brokenMap, blank, toVariable, toEntries, toVariables, hsealed]
    rfl
  obtain ⟨hkeys, hdecides, -, -⟩ := toVariable_decides brokenMap
  obtain ⟨haccepts, hfirst⟩ := hdecides (hkeys false brokenLists hread)
  obtain ⟨-, -, -, hagree⟩ := toVariable_decides sealedNumber
  refine ⟨hread, herror, ?_, (hfirst _).1 herror, hagree _ (.encrypted rfl rfl rfl rfl)⟩
  rw [← haccepts, herror]
  rintro ⟨v, hv⟩
  cases hv

end VariableWire
end DeployInventory
