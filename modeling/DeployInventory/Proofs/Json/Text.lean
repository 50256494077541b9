import DeployInventory.Json.Reader
import DeployInventory.Proofs.Json.Number
/-!
# Proofs.Json.Text — a document is told by its compact text

A string is read as it was written (`stringBody_escaped`), and a number ends where a delimiter follows. So of the text
of a document and what follows it, the document takes the same part whatever stands there: two documents with one text,
each followed by a delimiter or by nothing, are equal, and so is what follows (`told`). Hence `compact_injective`.
-/
namespace DeployInventory

/-- **Two texts are equal when each ends where the first mark stands**, and so is what follows them. -/
theorem append_inj_of_marked {α : Type} (IsMark : α → Prop) {l l' r s : List α} (hl : ∀ c ∈ l, ¬IsMark c)
    (hl' : ∀ c ∈ l', ¬IsMark c) (hr : ∀ c ∈ r.head?, IsMark c) (hs : ∀ c ∈ s.head?, IsMark c)
    (h : l ++ r = l' ++ s) : l = l' ∧ r = s := by
  induction l generalizing l' with
  | nil =>
    cases l' with
    | nil => exact ⟨rfl, h⟩
    | cons d l' =>
      rw [List.nil_append] at h
      subst h
      exact absurd (hr d rfl) (hl' d List.mem_cons_self)
  | cons c l ih =>
    cases l' with
    | nil =>
      rw [List.nil_append] at h
      subst h
      exact absurd (hs c rfl) (hl c List.mem_cons_self)
    | cons d l' =>
      obtain ⟨rfl, htail⟩ := List.cons.inj h
      obtain ⟨rfl, hrest⟩ := ih (fun c hc => hl c (List.mem_cons_of_mem _ hc))
        (fun c hc => hl' c (List.mem_cons_of_mem _ hc)) htail
      exact ⟨rfl, hrest⟩

namespace Json

/-- **Induction on documents**: those in an array or in an object come before it. -/
@[elab_as_elim]
theorem induction {P : Json → Prop} (null : P .null) (bool : ∀ b, P (.bool b)) (number : ∀ n, P (.number n))
    (string : ∀ s, P (.string s)) (array : ∀ items, (∀ j ∈ items, P j) → P (.array items))
    (object : ∀ fields, (∀ e ∈ fields, P e.2) → P (.object fields)) (j : Json) : P j := by
  cases j with
  | null => exact null
  | bool b => exact bool b
  | number n => exact number n
  | string s => exact string s
  | array items => exact array items fun k _hk => induction null bool number string array object k
  | object fields => exact object fields fun e _he => induction null bool number string array object e.2
termination_by sizeOf j
decreasing_by
  · have hk := List.sizeOf_lt_of_mem _hk
    simp only [Json.array.sizeOf_spec]
    omega
  · have he := List.sizeOf_lt_of_mem _he
    cases e
    simp only [Json.object.sizeOf_spec, Prod.mk.sizeOf_spec] at he ⊢
    omega

/-! ## Strings -/

theorem hexNumber?_control : ∀ n < 32,
    hexNumber? ['0', '0', hexDigit (n / 16), hexDigit n] = some n := by
  decide

/-- **A character is read as it was written**, escaped or not. -/
theorem stringBody_escaped (c : Char) (rest : List Char) :
    stringBody (escaped c ++ rest) = (stringBody rest).map fun p => (c :: p.1, p.2) := by
  by_cases hnamed : c ∈ ['"', '\\', '\n', '\r', '\t', '\x08', '\x0c']
  · -- the escapes that have a letter or a mark of their own
    simp only [List.mem_cons, List.not_mem_nil, or_false] at hnamed
    rcases hnamed with rfl | rfl | rfl | rfl | rfl | rfl | rfl <;> rfl
  simp only [List.mem_cons, List.not_mem_nil, or_false, not_or] at hnamed
  by_cases hcontrol : c.toNat < 32
  · have hescaped : escaped c = ['\\', 'u', '0', '0', hexDigit (c.toNat / 16), hexDigit c.toNat] := by
      simp [escaped, hnamed, hcontrol]
    have hnumber := hexNumber?_control c.toNat hcontrol
    have hlow : ¬(0xD800 ≤ c.toNat ∧ c.toNat < 0xDC00) := by omega
    have hhigh : ¬(0xDC00 ≤ c.toNat ∧ c.toNat < 0xE000) := by omega
    rw [hescaped]
    simp only [List.cons_append, List.nil_append, stringBody, hnumber, if_neg hlow, if_neg hhigh, Char.ofNat_toNat]
  · have hescaped : escaped c = [c] := by simp [escaped, hnamed, hcontrol]
    rw [hescaped, List.singleton_append, stringBody.eq_def]
    split <;> simp_all

theorem stringBody_quoted (s : String) (rest : List Char) :
    stringBody (s.toList.flatMap escaped ++ '"' :: rest) = some (s.toList, rest) := by
  induction s.toList with
  | nil => rfl
  | cons c cs ih => rw [List.flatMap_cons, List.append_assoc, stringBody_escaped, ih, Option.map_some]

/-- **A string ends at its closing mark.** -/
theorem quoted_append_inj {s t : String} {r r' : List Char} (h : quoted s ++ r = quoted t ++ r') : s = t ∧ r = r' := by
  have hbody : s.toList.flatMap escaped ++ '"' :: r = t.toList.flatMap escaped ++ '"' :: r' := by
    simpa [quoted] using h
  have hread := congrArg stringBody hbody
  rw [stringBody_quoted, stringBody_quoted, Option.some.injEq, Prod.mk.injEq, String.toList_inj] at hread
  exact hread

/-! ## What a text starts and ends with -/

def IsDelimiter (c : Char) : Prop := c = ',' ∨ c = ']' ∨ c = '}'

/-- Whether nothing follows a document, or a delimiter does. -/
def Delimited (r : List Char) : Prop := ∀ c ∈ r.head?, IsDelimiter c

/-- The forms of documents. -/
inductive Shape where
  | null
  | bool
  | number
  | string
  | array
  | object

def shape : Json → Shape
  | .null => .null
  | .bool _ => .bool
  | .number _ => .number
  | .string _ => .string
  | .array _ => .array
  | .object _ => .object

def shapeOf (c : Char) : Shape :=
  if c = 'n' then .null
  else if c = 't' ∨ c = 'f' then .bool
  else if c = '"' then .string
  else if c = '[' then .array
  else if c = '{' then .object
  else .number

/-- **The first character of a text tells its shape**, and is no delimiter. -/
theorem exists_head (j : Json) : ∃ c rest, compactChars j = c :: rest ∧ shapeOf c = j.shape ∧ ¬IsDelimiter c := by
  cases j with
  | null => exact ⟨'n', _, rfl, rfl, by simp [IsDelimiter]⟩
  | bool b =>
    cases b with
    | true => exact ⟨'t', _, rfl, rfl, by simp [IsDelimiter]⟩
    | false => exact ⟨'f', _, rfl, rfl, by simp [IsDelimiter]⟩
  | number n =>
    obtain ⟨c, rest, hchars, hc⟩ := n.exists_head_chars
    have hne : ∀ mark : Char, mark.isDigit = false → mark ≠ '-' → c ≠ mark := by
      rintro mark hmark hminus rfl
      rcases hc with hc | hc
      · rw [hc] at hmark
        cases hmark
      · exact hminus hc
    refine ⟨c, rest, hchars, ?_, ?_⟩
    · simp [shapeOf, hne, shape]
    · simp [IsDelimiter, hne]
  | string s => exact ⟨'"', _, rfl, rfl, by simp [IsDelimiter]⟩
  | array items => exact ⟨'[', _, rfl, rfl, by simp [IsDelimiter]⟩
  | object fields => exact ⟨'{', _, rfl, rfl, by simp [IsDelimiter]⟩

theorem shape_eq {j k : Json} {r s : List Char} (h : compactChars j ++ r = compactChars k ++ s) :
    j.shape = k.shape := by
  obtain ⟨c, rest, hj, hc, -⟩ := exists_head j
  obtain ⟨d, rest', hk, hd, -⟩ := exists_head k
  rw [hj, hk] at h
  rw [← hc, ← hd, (List.cons.inj h).1]

theorem ne_of_isDelimiter {j : Json} {c : Char} (hc : IsDelimiter c) {r s : List Char} :
    c :: r ≠ compactChars j ++ s := by
  obtain ⟨d, rest, hj, -, hd⟩ := exists_head j
  intro h
  rw [hj] at h
  exact hd ((List.cons.inj h).1 ▸ hc)

/-! ## Texts tell documents -/

/-- **A document that is told by its text**, whatever follows the text after a delimiter. -/
def Told (j : Json) : Prop := ∀ (k : Json) (r s : List Char), Delimited r → Delimited s →
  compactChars j ++ r = compactChars k ++ s → j = k ∧ r = s

/-- A number ends where a delimiter follows. -/
theorem told_number (n : JsonNumber) : Told (.number n) := by
  intro k r s hr hs h
  have hshape := shape_eq h
  cases k with
  | number m =>
    have hdelimiter : ∀ m : JsonNumber, ∀ c ∈ m.chars, ¬IsDelimiter c := by
      intro m c hc hd
      have hcase := m.mem_chars c hc
      rcases hd with rfl | rfl | rfl <;> simp at hcase
    obtain ⟨hchars, hrest⟩ := append_inj_of_marked IsDelimiter (hdelimiter n) (hdelimiter m) hr hs h
    exact ⟨congrArg number (JsonNumber.chars_injective hchars), hrest⟩
  | null | bool | string | array | object => cases hshape

/-- The text behind the first item of an array. -/
def itemsAfter : List Json → List Char
  | [] => []
  | j :: rest => ',' :: (compactChars j ++ itemsAfter rest)

theorem compactItems_cons (j : Json) (rest : List Json) :
    compactItems (j :: rest) = compactChars j ++ itemsAfter rest := by
  induction rest generalizing j with
  | nil => rw [compactItems, itemsAfter, List.append_nil]
  | cons k rest ih =>
    rw [compactItems, itemsAfter, ih]
    exact List.cons_ne_nil k rest

theorem delimited_itemsAfter (l : List Json) (r : List Char) : Delimited (itemsAfter l ++ ']' :: r) := by
  intro c hc
  cases l with
  | nil =>
    cases hc
    exact .inr (.inl rfl)
  | cons j l =>
    cases hc
    exact .inl rfl

theorem itemsAfter_inj {r s : List Char} : ∀ {l l' : List Json}, (∀ j ∈ l, Told j) →
    itemsAfter l ++ ']' :: r = itemsAfter l' ++ ']' :: s → l = l' ∧ r = s
  | [], [], _, h => ⟨rfl, (List.cons.inj h).2⟩
  | [], k :: l', _, h => absurd (List.cons.inj h).1 (by decide)
  | j :: l, [], _, h => absurd (List.cons.inj h).1 (by decide)
  | j :: l, k :: l', hl, h => by
    obtain ⟨hj, hl⟩ := List.forall_mem_cons.1 hl
    have htail : compactChars j ++ (itemsAfter l ++ ']' :: r) = compactChars k ++ (itemsAfter l' ++ ']' :: s) := by
      simpa [itemsAfter] using h
    obtain ⟨rfl, hbehind⟩ := hj k _ _ (delimited_itemsAfter l r) (delimited_itemsAfter l' s) htail
    obtain ⟨rfl, hrs⟩ := itemsAfter_inj hl hbehind
    exact ⟨rfl, hrs⟩

theorem told_array {items : List Json} (hitems : ∀ j ∈ items, Told j) : Told (.array items) := by
  intro k r s _ _ h
  have hshape := shape_eq h
  cases k with
  | array items' =>
    have hbody : compactItems items ++ ']' :: r = compactItems items' ++ ']' :: s := by
      simpa [compactChars] using h
    cases items with
    | nil =>
      cases items' with
      | nil => exact ⟨rfl, (List.cons.inj hbody).2⟩
      | cons j l =>
        rw [compactItems_cons, List.append_assoc] at hbody
        exact absurd hbody (ne_of_isDelimiter (.inr (.inl rfl)))
    | cons j l =>
      rw [compactItems_cons, List.append_assoc] at hbody
      cases items' with
      | nil => exact absurd hbody.symm (ne_of_isDelimiter (.inr (.inl rfl)))
      | cons j' l' =>
        rw [compactItems_cons, List.append_assoc] at hbody
        obtain ⟨hj, hl⟩ := List.forall_mem_cons.1 hitems
        obtain ⟨rfl, htail⟩ := hj j' _ _ (delimited_itemsAfter l r) (delimited_itemsAfter l' s) hbody
        obtain ⟨rfl, hrs⟩ := itemsAfter_inj hl htail
        exact ⟨rfl, hrs⟩
  | null | bool | number | string | object => cases hshape

/-- The text behind the first field of an object. -/
def fieldsAfter : List (String × Json) → List Char
  | [] => []
  | (key, j) :: rest => ',' :: (quoted key ++ ':' :: (compactChars j ++ fieldsAfter rest))

theorem compactFields_cons (key : String) (j : Json) (rest : List (String × Json)) :
    compactFields ((key, j) :: rest) = quoted key ++ ':' :: (compactChars j ++ fieldsAfter rest) := by
  induction rest generalizing key j with
  | nil => rw [compactFields, fieldsAfter, List.append_nil]
  | cons e rest ih =>
    obtain ⟨key', k⟩ := e
    rw [compactFields, fieldsAfter, ih]
    exact List.cons_ne_nil _ rest

theorem delimited_fieldsAfter (l : List (String × Json)) (r : List Char) : Delimited (fieldsAfter l ++ '}' :: r) := by
  intro c hc
  cases l with
  | nil =>
    cases hc
    exact .inr (.inr rfl)
  | cons e l =>
    cases hc
    exact .inl rfl

/-- A field is told by its text. -/
theorem field_inj {key key' : String} {j j' : Json} {r s : List Char}
    (hj : Told j) (hr : Delimited r) (hs : Delimited s)
    (h : quoted key ++ ':' :: (compactChars j ++ r) = quoted key' ++ ':' :: (compactChars j' ++ s)) :
    (key, j) = (key', j') ∧ r = s := by
  obtain ⟨rfl, htail⟩ := quoted_append_inj h
  obtain ⟨rfl, hrs⟩ := hj j' r s hr hs (List.cons.inj htail).2
  exact ⟨rfl, hrs⟩

theorem fieldsAfter_inj {r s : List Char} : ∀ {l l' : List (String × Json)}, (∀ e ∈ l, Told e.2) →
    fieldsAfter l ++ '}' :: r = fieldsAfter l' ++ '}' :: s → l = l' ∧ r = s
  | [], [], _, h => ⟨rfl, (List.cons.inj h).2⟩
  | [], _ :: _, _, h => absurd (List.cons.inj h).1 (by decide)
  | _ :: _, [], _, h => absurd (List.cons.inj h).1 (by decide)
  | (key, j) :: l, (key', j') :: l', hl, h => by
    obtain ⟨hj, hl⟩ := List.forall_mem_cons.1 hl
    have hfield : quoted key ++ ':' :: (compactChars j ++ (fieldsAfter l ++ '}' :: r)) =
        quoted key' ++ ':' :: (compactChars j' ++ (fieldsAfter l' ++ '}' :: s)) := by
      simpa [fieldsAfter] using h
    obtain ⟨heq, htail⟩ := field_inj hj (delimited_fieldsAfter l r) (delimited_fieldsAfter l' s) hfield
    obtain ⟨rfl, hrs⟩ := fieldsAfter_inj hl htail
    exact ⟨by rw [heq], hrs⟩

theorem told_object {fields : List (String × Json)} (hfields : ∀ e ∈ fields, Told e.2) : Told (.object fields) := by
  intro k r s _ _ h
  have hshape := shape_eq h
  cases k with
  | object fields' =>
    have hbody : compactFields fields ++ '}' :: r = compactFields fields' ++ '}' :: s := by
      simpa [compactChars] using h
    have hmark : ∀ {key : String} {t u : List Char}, '}' :: t ≠ quoted key ++ u := fun heq =>
      absurd (List.cons.inj heq).1 (by decide)
    cases fields with
    | nil =>
      cases fields' with
      | nil => exact ⟨rfl, (List.cons.inj hbody).2⟩
      | cons e l =>
        rw [compactFields_cons, List.append_assoc] at hbody
        exact absurd hbody hmark
    | cons e l =>
      rw [compactFields_cons, List.append_assoc, List.cons_append, List.append_assoc] at hbody
      cases fields' with
      | nil => exact absurd hbody.symm hmark
      | cons e' l' =>
        rw [compactFields_cons, List.append_assoc, List.cons_append, List.append_assoc] at hbody
        obtain ⟨he, hl⟩ := List.forall_mem_cons.1 hfields
        obtain ⟨heq, htail⟩ := field_inj he (delimited_fieldsAfter l r) (delimited_fieldsAfter l' s) hbody
        obtain ⟨rfl, hrs⟩ := fieldsAfter_inj hl htail
        obtain rfl : e = e' := heq
        exact ⟨rfl, hrs⟩
  | null | bool | number | string | array => cases hshape

theorem told_null : Told .null := by
  intro k r s _ _ h
  have hshape := shape_eq h
  cases k with
  | null => exact ⟨rfl, List.append_cancel_left h⟩
  | bool | number | string | array | object => cases hshape

theorem told_bool (b : Bool) : Told (.bool b) := by
  intro k r s _ _ h
  have hshape := shape_eq h
  cases k with
  | bool b' =>
    have hb : b = b' := by
      cases b with
      | true =>
        cases b' with
        | true => rfl
        | false => exact absurd (List.cons.inj h).1 (by decide)
      | false =>
        cases b' with
        | true => exact absurd (List.cons.inj h).1 (by decide)
        | false => rfl
    subst hb
    exact ⟨rfl, List.append_cancel_left h⟩
  | null | number | string | array | object => cases hshape

theorem told_string (t : String) : Told (.string t) := by
  intro k r s _ _ h
  have hshape := shape_eq h
  cases k with
  | string t' =>
    obtain ⟨rfl, hrs⟩ := quoted_append_inj h
    exact ⟨rfl, hrs⟩
  | null | bool | number | array | object => cases hshape

/-- **A document is told by its text.** -/
theorem told (j : Json) : Told j := by
  induction j using induction with
  | null => exact told_null
  | bool b => exact told_bool b
  | number n => exact told_number n
  | string t => exact told_string t
  | array items ih => exact told_array ih
  | object fields ih => exact told_object ih

/-- **Two documents with one compact text are equal.** -/
theorem compact_injective {j k : Json} (h : j.compact = k.compact) : j = k := by
  have hchars : compactChars j ++ [] = compactChars k ++ [] := by
    rw [List.append_nil, List.append_nil]
    exact String.ofList_injective h
  exact (told j k [] [] (by simp [Delimited]) (by simp [Delimited]) hchars).1

end Json
end DeployInventory
