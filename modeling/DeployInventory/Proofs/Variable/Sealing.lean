import DeployInventory.Proofs.Checked
import DeployInventory.Proofs.Variable.Wire
import DeployInventory.Variable.Render
/-!
# Proofs.Variable.Sealing — what the rendering shows of sealed payloads

Variables that differ in ciphertexts only, at whatever depth, are rendered alike (`render_congr`). What a place inside a
variable holds goes into one stretch of the text (`exists_render_fillPath`), so of a payload that is sealed there the
text tells the alias of the key and nothing else (`render_hides_ciphertexts`).
-/
namespace DeployInventory
namespace Variable

/-- **Variables that differ in ciphertexts only**, at every depth. -/
inductive AlikeButSealed : Variable → Variable → Prop
  | value (document) : AlikeButSealed (.value document) (.value document)
  | reference (name) : AlikeButSealed (.reference name) (.reference name)
  | list {l k} : List.Forall₂ AlikeButSealed l k → AlikeButSealed (.list l) (.list k)
  | map {l k : List (String × Variable)} : l.map Prod.fst = k.map Prod.fst →
      List.Forall₂ AlikeButSealed (l.map Prod.snd) (k.map Prod.snd) → AlikeButSealed (.map l) (.map k)
  | closure (source) : AlikeButSealed (.closure source) (.closure source)
  | encrypted (ciphertext ciphertext' key) :
      AlikeButSealed (.encrypted ciphertext key) (.encrypted ciphertext' key)

variable {coloured : Bool} {v w : Variable}

theorem renderItems_eq_map : ∀ l : List Variable, renderItems coloured l = l.map (render coloured)
  | [] => rfl
  | v :: rest => by rw [renderItems, renderItems_eq_map rest, List.map_cons]

def renderEntry (coloured : Bool) (e : String × Variable) : String := e.1 ++ " = " ++ render coloured e.2

theorem renderEntries_eq_map : ∀ l : List (String × Variable),
    renderEntries coloured l = l.map (renderEntry coloured)
  | [] => rfl
  | (name, v) :: rest => by rw [renderEntries, renderEntries_eq_map rest, List.map_cons, renderEntry]

theorem map_eq_of_forall₂ {α β γ : Type} {f : α → γ} {g : β → γ} {l : List α} {k : List β}
    (h : List.Forall₂ (fun a b => f a = g b) l k) : l.map f = k.map g := by
  rwa [← List.forall₂_eq_eq_eq, List.forall₂_map_left_iff, List.forall₂_map_right_iff]

/-- **Ciphertexts do not show**, at whatever depth they are. -/
theorem render_congr : ∀ {w}, AlikeButSealed v w → v.render coloured = w.render coloured := by
  induction v using Variable.induction with
  | value | reference | closure =>
    intro w h
    cases h
    rfl
  | list items ih =>
    intro w h
    cases h with
    | list h =>
      rw [render, render, renderItems_eq_map, renderItems_eq_map,
        map_eq_of_forall₂ (forall₂_of_mem h fun v hv w => ih v hv)]
  | map entries ih =>
    intro w h
    cases h with
    | map hnames h =>
      rw [render, render, renderEntries_eq_map, renderEntries_eq_map]
      refine congrArg (fun texts => "\x7b " ++ ", ".intercalate texts ++ " \x7d") (map_eq_of_forall₂ ?_)
      refine forall₂_of_mem (forall₂_of_map_fst_snd hnames h) fun e he e' => ?_
      rintro ⟨hname, halike⟩
      rw [renderEntry, renderEntry, hname, ih e he halike]
  | encrypted ciphertext key =>
    -- here alone the two variables may differ, and the text is made of the key
    intro w h
    cases h
    cases key <;> rfl

/-! ## Places inside a variable -/

/-- **A place in a list or a map**, with what stands before and behind it. -/
inductive Frame where
  | item (before behind : List Variable)
  | entry (before : List (String × Variable)) (name : String) (behind : List (String × Variable))

def Frame.fill : Frame → Variable → Variable
  | .item before behind, v => .list (before ++ v :: behind)
  | .entry before name behind, v => .map (before ++ (name, v) :: behind)

/-- **The variable with another at a place inside it**, told by the frames around the place from the outermost on. -/
def fillPath (path : List Frame) (v : Variable) : Variable := path.foldr Frame.fill v

theorem exists_intercalate_eq (sep : String) (xs ys : List String) :
    ∃ before behind, ∀ s, sep.intercalate (xs ++ s :: ys) = before ++ s ++ behind := by
  -- a separator stands on a side just where there is a neighbour
  have hbehind : ∃ behind, ∀ s, sep.intercalate (s :: ys) = s ++ behind := by
    cases ys with
    | nil => exact ⟨"", fun s => by simp⟩
    | cons y ys => exact ⟨sep ++ sep.intercalate (y :: ys), fun s => by simp [String.append_assoc]⟩
  obtain ⟨behind, hbehind⟩ := hbehind
  cases xs with
  | nil => exact ⟨"", behind, fun s => by rw [List.nil_append, hbehind, String.empty_append]⟩
  | cons x xs =>
    refine ⟨sep.intercalate (x :: xs) ++ sep, behind, fun s => ?_⟩
    rw [String.intercalate_append_of_ne_nil (List.cons_ne_nil x xs) (List.cons_ne_nil s ys), hbehind]
    simp only [String.append_assoc]

theorem exists_render_fill (coloured : Bool) (place : Frame) :
    ∃ before behind, ∀ v, (place.fill v).render coloured = before ++ v.render coloured ++ behind := by
  cases place with
  | item before behind =>
    obtain ⟨s, t, h⟩ := exists_intercalate_eq ", " (before.map (render coloured)) (behind.map (render coloured))
    refine ⟨"[" ++ s, t ++ "]", fun v => ?_⟩
    rw [Frame.fill, render, renderItems_eq_map, List.map_append, List.map_cons, h]
    simp only [String.append_assoc]
  | entry before name behind =>
    obtain ⟨s, t, h⟩ :=
      exists_intercalate_eq ", " (before.map (renderEntry coloured)) (behind.map (renderEntry coloured))
    refine ⟨"\x7b " ++ s ++ name ++ " = ", t ++ " \x7d", fun v => ?_⟩
    rw [Frame.fill, render, renderEntries_eq_map, List.map_append, List.map_cons, h, renderEntry]
    simp only [String.append_assoc]

/-- **What stands at a place inside goes into one stretch of the text**; the rest of the text is the same for all. -/
theorem exists_render_fillPath (coloured : Bool) (path : List Frame) :
    ∃ before behind, ∀ v, (fillPath path v).render coloured = before ++ v.render coloured ++ behind := by
  induction path with
  | nil => exact ⟨"", "", fun v => by simp [fillPath]⟩
  | cons place path ih =>
    obtain ⟨before, behind, h⟩ := ih
    obtain ⟨before', behind', h'⟩ := exists_render_fill coloured place
    refine ⟨before' ++ before, behind ++ behind', fun v => ?_⟩
    show (place.fill (fillPath path v)).render coloured = _
    rw [h', h]
    simp only [String.append_assoc]

theorem render_fillPath_inj (path : List Frame) :
    (fillPath path v).render coloured = (fillPath path w).render coloured ↔
      v.render coloured = w.render coloured := by
  obtain ⟨before, behind, h⟩ := exists_render_fillPath coloured path
  rw [h, h, String.append_left_inj, String.append_right_inj]

theorem render_encrypted_inj {ciphertext ciphertext' : String} {key key' : Option String} :
    (encrypted ciphertext key).render coloured = (encrypted ciphertext' key').render coloured ↔ key = key' := by
  have hlength : ∀ s t : String, s ≠ s ++ " (key '" ++ t ++ "')" := fun s t hst => by
    have hle := congrArg String.length hst
    have hmark : " (key '".length = 7 := by decide
    simp only [String.length_append, hmark] at hle
    omega
  cases key with
  | none =>
    cases key' with
    | none => exact iff_of_true rfl rfl
    | some name' => exact iff_of_false (hlength _ name') (Option.some_ne_none name').symm
  | some name =>
    cases key' with
    | none => exact iff_of_false (hlength _ name).symm (Option.some_ne_none name)
    | some name' => rw [render, render, String.append_left_inj, String.append_right_inj, Option.some.injEq]

/-- **Rendering hides ciphertexts.** Variables that differ in ciphertexts only, at whatever depth, are rendered alike,
with colours or without. Of a payload that is sealed at a place inside a variable the text tells the alias of the key,
and all that it tells is that. -/
theorem render_hides_ciphertexts (coloured : Bool) :
    (∀ v w, AlikeButSealed v w → v.render coloured = w.render coloured) ∧
    ∀ path ciphertext ciphertext' key key',
      (fillPath path (.encrypted ciphertext key)).render coloured =
        (fillPath path (.encrypted ciphertext' key')).render coloured ↔ key = key' :=
  ⟨fun _ _ => render_congr, fun path _ _ _ _ => (render_fillPath_inj path).trans render_encrypted_inj⟩

/-- The settings of a database, with a password and a token as they were sealed. -/
def sealedSettings (password token : String) : Variable :=
  .map [("host", .reference "db_host"), ("password", .encrypted password (some "vault")),
    ("tokens", .list [.value (.string "none"), .map [("api", .encrypted token none)]])]

theorem sealedSettings_hides :
    AlikeButSealed (sealedSettings "c2VjcmV0" "dG9rZW4=") (sealedSettings "b3RoZXI=" "") ∧
    (sealedSettings "c2VjcmV0" "dG9rZW4=").render true = (sealedSettings "b3RoZXI=" "").render true := by
  have halike : AlikeButSealed (sealedSettings "c2VjcmV0" "dG9rZW4=") (sealedSettings "b3RoZXI=" "") := by
    refine .map rfl (.cons (.reference _) (.cons (.encrypted _ _ _) (.cons (.list ?_) .nil)))
    exact .cons (.value _) (.cons (.map rfl (.cons (.encrypted _ _ _) .nil)) .nil)
  exact ⟨halike, (render_hides_ciphertexts true).1 _ _ halike⟩

end Variable
end DeployInventory
