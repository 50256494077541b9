import DeployInventory.History.Basic
import DeployInventory.Proofs.Json.Text
import DeployInventory.Proofs.Record.Wire
/-!
# Proofs.History.Content — what is hashed for an id

An id is written in hexadecimal digits and so is neither empty nor has a line break. Of a content whose parent is one,
then, the first line is the parent's id and the rest is the text of the records, which tells them.
-/
namespace DeployInventory

theorem hexDigit_ne_lineBreak (n : Nat) : hexDigit n ≠ '\n' := by
  have hdigit : ∀ d < 16, Nat.digitChar d ≠ '\n' := by decide
  exact hdigit (n % 16) (Nat.mod_lt n (by decide))

theorem Blake3.length_digest (bytes : List UInt8) : (digest bytes).length = 32 := by
  simp [digest, List.length_flatMap, wordBytes]

namespace CommitId

/-- An id that has been computed for some commit, whether or not there is a history with it. -/
def IsComputed (id : CommitId) : Prop := ∃ parent records, id = of parent records

theorem length_of (parent : Option CommitId) (records : List Record) : (of parent records).toList.length = 32 := by
  simp [of, hexByte, size, List.length_flatMap, Blake3.length_digest]

theorem IsComputed.ne_empty {id : CommitId} (h : id.IsComputed) : id ≠ "" := by
  obtain ⟨parent, records, rfl⟩ := h
  intro hempty
  have hlength := length_of parent records
  rw [hempty] at hlength
  exact absurd hlength (by decide)

theorem IsComputed.ne_lineBreak {id : CommitId} (h : id.IsComputed) : ∀ c ∈ id.toList, c ≠ '\n' := by
  obtain ⟨parent, records, rfl⟩ := h
  intro c hc
  rw [of, String.toList_ofList, List.mem_flatMap] at hc
  obtain ⟨b, -, hc⟩ := hc
  simp only [hexByte, List.mem_cons, List.not_mem_nil, or_false] at hc
  obtain rfl | rfl := hc
  · exact hexDigit_ne_lineBreak _
  · exact hexDigit_ne_lineBreak _

theorem toList_content (parent : Option CommitId) (records : List Record) :
    (content parent records).toList =
      (parent.getD "").toList ++ '\n' :: (Record.streamToJson records).compact.toList := by
  simp [content]

/-- The first line of a content tells the parent, absent where the line is empty. -/
theorem getD_inj {p q : Option CommitId} (hp : ∀ id ∈ p, id.IsComputed) (hq : ∀ id ∈ q, id.IsComputed)
    (h : p.getD "" = q.getD "") : p = q := by
  cases p with
  | none =>
    cases q with
    | none => rfl
    | some id => exact absurd h.symm (hq id rfl).ne_empty
  | some id =>
    cases q with
    | none => exact absurd h (hp id rfl).ne_empty
    | some id' => exact congrArg some h

theorem ne_lineBreak_of_mem {p : Option CommitId} (hp : ∀ id ∈ p, id.IsComputed) :
    ∀ c ∈ (p.getD "").toList, c ≠ '\n' := by
  cases p with
  | none => simp
  | some id => exact (hp id rfl).ne_lineBreak

/-- **What is hashed tells the parent and the records.** Where the parents are absent or computed ids, contents with the
same bytes have one parent and the same records. -/
theorem content_injective {p q : Option CommitId} {rs ss : List Record} (hp : ∀ id ∈ p, id.IsComputed)
    (hq : ∀ id ∈ q, id.IsComputed) (h : (content p rs).toUTF8 = (content q ss).toUTF8) : p = q ∧ rs = ss := by
  have hcontent : content p rs = content q ss := String.toByteArray_inj.1 h
  have hchars := congrArg String.toList hcontent
  rw [toList_content, toList_content] at hchars
  -- The first line break of each ends the parent's id; the text of the records may have any.
  obtain ⟨hfirst, hrest⟩ := append_inj_of_marked (· = '\n') (ne_lineBreak_of_mem hp)
    (ne_lineBreak_of_mem hq) (by simp) (by simp) hchars
  have hstream : Record.streamToJson rs = Record.streamToJson ss :=
    Json.compact_injective (String.toList_inj.1 (List.cons.inj hrest).2)
  have hrecords : rs = ss :=
    List.map_injective_iff.2 (fun _ _ => Record.toJson_injective) (Json.array.inj hstream)
  exact ⟨getD_inj hp hq (String.toList_inj.1 hfirst), hrecords⟩

def prod : Record := .environment { name := "prod" }

def prodId : CommitId := "35b63e12f530e25302079beec0f46a69"

theorem isComputed_prodId : prodId.IsComputed := ⟨none, [prod], by decide +kernel⟩

/-- The id that is written out and the computed one are told the same by the bytes; with a parent and without one, the
bytes differ. -/
theorem prod_content_injective :
    prodId.IsComputed ∧
    (content (some prodId) [prod]).toUTF8 = (content (some (of none [prod])) [prod]).toUTF8 ∧
    prodId = of none [prod] ∧
    (content (some prodId) [prod]).toUTF8 ≠ (content none [prod]).toUTF8 := by
  have hwritten : ∀ id ∈ some prodId, id.IsComputed := by simpa using isComputed_prodId
  have hcomputed : ∀ id ∈ some (of none [prod]), id.IsComputed := by simpa using ⟨none, [prod], rfl⟩
  have hbytes : (content (some prodId) [prod]).toUTF8 = (content (some (of none [prod])) [prod]).toUTF8 := by
    decide +kernel
  refine ⟨isComputed_prodId, hbytes, ?_, fun h => ?_⟩
  · exact Option.some.inj (content_injective hwritten hcomputed hbytes).1
  · exact absurd (content_injective hwritten (by simp) h).1 (by simp)

end CommitId

end DeployInventory
