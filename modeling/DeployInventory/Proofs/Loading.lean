import DeployInventory.Loading
import DeployInventory.Proofs.Document.Numbering
/-!
# Proofs.Loading — several documents, one after the other

The records of documents that are loaded together are those of one document after the other (`recordsOfAll`), and the
assignments among them ascend by id in the order of the stream (`ofFiles_of_readAs`): within a document by its
numbering, from one document to the next by the documents' own numbers. A stream like that only adds
(`merge_entriesAt`), so every assignment is found once, where it is addressed to, and of several with one name in a list
the last one counts (`ofDocuments_keeps_every_assignment`).
-/
namespace DeployInventory

theorem assignments_append (records records' : List Record) :
    assignments (records ++ records') = assignments records ++ assignments records' :=
  List.filterMap_append

namespace Inventory

open VariableList (carries)

variable {records before after : List Record} {a : Assignment} {p : Place}

/-! ## Streams whose ids ascend -/

theorem addressed_sublist (p : Place) (records : List Record) :
    (addressed p records).Sublist (assignments records) := by
  rw [addressed_eq_filter]
  exact List.filter_sublist

/-- **A stream with ascending ids leaves every assignment where it is addressed to**, in the order of the stream. -/
theorem entriesAt_of_ascending (h : Ascending (assignments records)) (p : Place) :
    (ofRecords records).entriesAt p = (addressed p records).map (·.placed) := by
  rw [entriesAt_ofRecords, (h.sublist (addressed_sublist p records)).assignAll]

/-- **It replaces nothing**: the next assignment goes to the end of its list. -/
theorem merge_entriesAt (h : Ascending (assignments (before ++ .assignment a :: after))) :
    ((ofRecords before).entriesAt a.place).merge a =
      ((ofRecords before).entriesAt a.place ++ [a.placed],
        .inserted ((ofRecords before).entriesAt a.place).length) := by
  have hupTo : Ascending (assignments (before ++ [.assignment a])) := by
    refine h.sublist ?_
    rw [assignments_append, assignments_append]
    exact List.Sublist.append (List.Sublist.refl _) (.cons_cons a (List.nil_sublist _))
  have hbefore : Ascending (assignments before) := by
    refine hupTo.sublist ?_
    rw [assignments_append]
    exact List.sublist_append_left _ _
  have haddressed : Ascending (addressed a.place before ++ [a]) := by
    have hsub := hupTo.sublist (addressed_sublist a.place _)
    rwa [addressed, List.filterMap_append, List.filterMap_cons_some (Record.at?_eq_some_iff.2 ⟨rfl, rfl⟩)] at hsub
  rw [entriesAt_of_ascending hbefore, haddressed.merge_next, List.length_map]

/-- **Every assignment is found once**, at the place that it is addressed to. -/
theorem filter_carries_entriesAt (h : Ascending (assignments records)) (ha : a ∈ assignments records) (p : Place) :
    ((ofRecords records).entriesAt p).filter (carries a.id) = if a.place = p then [a.placed] else [] := by
  have hcarries : carries a.id ∘ Assignment.placed = fun b => b.id == a.id := rfl
  have hcomm : (addressed p records).filter (·.id == a.id) = [a].filter (·.place = p) := by
    rw [← h.filter_id ha, addressed_eq_filter, List.filter_comm]
  rw [entriesAt_of_ascending h, List.filter_map, hcarries, hcomm]
  split
  · rename_i hp
    rw [List.filter_cons_of_pos (by simpa using hp)]
    rfl
  · rename_i hp
    rw [List.filter_cons_of_neg (by simpa using hp)]
    rfl

end Inventory

/-! ## Documents with their numbers -/

/-- **What the content of a file says**, if it is that of an inventory document without a fault. -/
def statementsOf? (content : List UInt8) : Option (List Statement) := do
  let d ← Document.parse? (← LoadedInventory.textOf? content)
  d.statements.toOption

theorem statementsOf?_eq_some_iff {content : List UInt8} {l : List Statement} :
    statementsOf? content = some l ↔
      ∃ source d, LoadedInventory.textOf? content = some source ∧ Document.parse? source = some d ∧
        d.statements = .ok l := by
  simp [statementsOf?, Option.bind_eq_some_iff, toOption_eq_some_iff]

def ReadAs (f : String × List UInt8) (l : List Statement) : Prop := statementsOf? f.2 = some l

theorem forall₂_readAs : ∀ {docs : List (String × List UInt8)} {ls : List (List Statement)},
    docs.mapM (fun f => statementsOf? f.2) = some ls → List.Forall₂ ReadAs docs ls
  | [], ls, h => by
    cases h
    exact .nil
  | f :: docs, ls, h => by
    rw [List.mapM_cons] at h
    obtain ⟨l, hl, h⟩ := Option.bind_eq_some_iff.1 h
    obtain ⟨rest, hrest, h⟩ := Option.bind_eq_some_iff.1 h
    cases h
    exact .cons hl (forall₂_readAs hrest)

namespace LoadedInventory

open Document (assignmentId)
open Statement (toRecords)

variable {f : String × List UInt8} {l : List Statement} {docs : List (String × List UInt8)}
  {ls : List (List Statement)}

/-- The records of documents that are numbered on from `number`, one document after the other. -/
def numberedRecords (number : Nat) (ls : List (List Statement)) : List Record :=
  (ls.zipIdx number).flatMap fun (l, n) => toRecords (assignmentId (some (UInt64.ofNat n))) 1 l

/-- **The records of several documents**: those of one have no number of a document, of more each has its own, from one
on. -/
def recordsOfAll : List (List Statement) → List Record
  | [l] => toRecords (assignmentId none) 1 l
  | ls => numberedRecords 1 ls

/-- **What several documents declare**: one has no number, of more each has its own, from one on. -/
def ofDocuments : List (String × List UInt8) → Except LoadError LoadedInventory
  | [(path, content)] => ofFile path content none
  | docs => ofFiles 1 docs

/-- The documents that are loaded from a path: the file there, or those below a directory. -/
def filesAt (files : FileTree) (path : String) : List (String × List UInt8) :=
  match files.node? path with
  | none => []
  | some (.file content) => [(path, content)]
  | some (.directory entries) => documentsBelow path (.directory entries)

/-- What is loaded from a path is what the documents there declare. -/
theorem ofPath_eq_ofDocuments {files : FileTree} {path : String} (hne : filesAt files path ≠ []) :
    ofPath files path = ofDocuments (filesAt files path) := by
  unfold filesAt at hne ⊢
  unfold ofPath
  cases hnode : files.node? path with
  | none => simp [hnode] at hne
  | some node =>
    cases node with
    | file content => rfl
    | directory entries =>
      rw [hnode] at hne
      dsimp only at hne ⊢
      cases hbelow : documentsBelow path (.directory entries) with
      | nil => exact absurd hbelow hne
      | cons f rest => cases rest <;> rfl

theorem ofFile_of_readAs (h : ReadAs f l) (file : Option UInt64) :
    ∃ plans, ofFile f.1 f.2 file = .ok ⟨toRecords (assignmentId file) 1 l, plans⟩ := by
  obtain ⟨source, d, htext, hparse, hstatements⟩ := statementsOf?_eq_some_iff.1 h
  have hrecords : d.records file = .ok (toRecords (assignmentId file) 1 l) := by
    rw [Document.records, hstatements]
    rfl
  exact ⟨d.plans, by simp only [ofFile, htext, ofDocument, hparse, hrecords]⟩

theorem exists_id_of_readAs (h : ReadAs f l) (file : Option UInt64) :
    ∀ a ∈ assignments (toRecords (assignmentId file) 1 l), ∃ i, a.id = assignmentId file i := by
  intro a ha
  obtain ⟨-, d, -, -, hstatements⟩ := statementsOf?_eq_some_iff.1 h
  obtain ⟨i, o, e, name, content, -, rfl⟩ :=
    Statement.exists_of_mem_assignments (Statement.tells_statements hstatements).assignment?_eq_none ha
  exact ⟨i, Owner.assignment_id⟩

theorem ascending_of_readAs (h : ReadAs f l) (hl : l.length < twoTo 64) (file : Option UInt64) :
    Ascending (assignments (toRecords (assignmentId file) 1 l)) := by
  obtain ⟨-, d, -, -, hstatements⟩ := statementsOf?_eq_some_iff.1 h
  have htells := Statement.tells_statements hstatements
  exact Statement.ascending_toRecords htells
    (Nat.lt_of_le_of_lt (Statement.length_assignments_le htells.assignment?_eq_none) hl)

/-- **Documents that are numbered one after the other have ascending ids**, each below the number of its document. -/
theorem ofFiles_of_readAs {number : Nat} (hdocs : List.Forall₂ ReadAs docs ls)
    (hnumber : number + docs.length ≤ twoTo 64) (hls : ∀ l ∈ ls, l.length < twoTo 64) :
    ∃ loaded, ofFiles number docs = .ok loaded ∧ loaded.records = numberedRecords number ls ∧
      Ascending (assignments loaded.records) ∧
      ∀ a ∈ assignments loaded.records, ∃ n i, number ≤ n ∧ n < number + docs.length ∧
        a.id = assignmentId (some (UInt64.ofNat n)) i := by
  -- All ids behind a file have a larger first number, so the logs of the files can be joined.
  induction hdocs generalizing number with
  | nil => exact ⟨empty, rfl, rfl, .nil, by simp [empty, assignments]⟩
  | @cons f l docs ls hf _ ih =>
    obtain ⟨hl, hls⟩ := List.forall_mem_cons.1 hls
    rw [List.length_cons] at hnumber
    have hnumber : number + 1 + docs.length ≤ twoTo 64 := by omega
    obtain ⟨rest, hrest, hrecords, hascending, hids⟩ := ih hnumber hls
    obtain ⟨plans, hfile⟩ := ofFile_of_readAs hf (some (UInt64.ofNat number))
    have hfirst := exists_id_of_readAs hf (some (UInt64.ofNat number))
    refine ⟨_, bind_eq_ok_iff.2 ⟨_, hfile, bind_eq_ok_iff.2 ⟨rest, hrest, rfl⟩⟩, ?_, ?_, fun a ha => ?_⟩
    · rw [append, hrecords, numberedRecords, numberedRecords, List.zipIdx_cons, List.flatMap_cons]
    · rw [append, assignments_append]
      refine (ascending_of_readAs hf hl _).append hascending fun a ha b hb => ?_
      obtain ⟨i, ha⟩ := hfirst a ha
      obtain ⟨n, j, hn, hn', hb⟩ := hids b hb
      rw [ha, hb]
      exact Document.assignmentId_lt_of_file (Document.ofNat_lt_ofNat hn (by omega))
    · rw [append, assignments_append] at ha
      rcases List.mem_append.1 ha with ha | ha
      · obtain ⟨i, ha⟩ := hfirst a ha
        exact ⟨number, i, Nat.le_refl number, by simp, ha⟩
      · obtain ⟨n, i, hn, hn', ha⟩ := hids a ha
        exact ⟨n, i, by omega, by simp; omega, ha⟩

/-- **Documents without a fault are loaded, and their assignments ascend.** -/
theorem ofDocuments_of_readAs (hdocs : List.Forall₂ ReadAs docs ls) (hcount : docs.length < twoTo 64)
    (hls : ∀ l ∈ ls, l.length < twoTo 64) :
    ∃ loaded, ofDocuments docs = .ok loaded ∧ loaded.records = recordsOfAll ls ∧
      Ascending (assignments loaded.records) := by
  have hseveral : ∃ loaded, ofFiles 1 docs = .ok loaded ∧ loaded.records = numberedRecords 1 ls ∧
      Ascending (assignments loaded.records) := by
    have hnumber : 1 + docs.length ≤ twoTo 64 := by omega
    obtain ⟨loaded, hloaded, hrecords, hascending, -⟩ := ofFiles_of_readAs hdocs hnumber hls
    exact ⟨loaded, hloaded, hrecords, hascending⟩
  cases hdocs with
  | nil => exact hseveral
  | cons hf hrest =>
    cases hrest with
    | nil =>
      obtain ⟨plans, hfile⟩ := ofFile_of_readAs hf none
      exact ⟨_, hfile, rfl, ascending_of_readAs hf (hls _ List.mem_cons_self) none⟩
    | cons => exact hseveral

/-- **Loading loses nothing, and what comes later counts.** Documents without a fault are loaded, a file alone or all
below a directory, and the stream is what they say, one after the other. The ids of their assignments ascend in the
order of the stream, so folding it replaces and erases nothing: an assignment goes to the end of the list that it is
addressed to. Every list has the assignments addressed to it, in the order of the stream, every assignment is found once
in the list that it is addressed to and in no other, and of several with one name in a list the last one is what the
list, as a layer, has for the name. Files are numbered with 64 bits, and so are the statements of each. -/
theorem ofDocuments_keeps_every_assignment (hne : docs ≠ [])
    (hdocs : docs.mapM (fun f => statementsOf? f.2) = some ls) (hcount : docs.length < twoTo 64)
    (hls : ∀ l ∈ ls, l.length < twoTo 64) :
    ∃ loaded, ofDocuments docs = .ok loaded ∧
      (∀ files path, filesAt files path = docs → ofPath files path = .ok loaded) ∧
      loaded.records = recordsOfAll ls ∧ (assignments loaded.records).Pairwise (fun a b => a.id < b.id) ∧
      (∀ before a after, loaded.records = before ++ .assignment a :: after →
        let l := (Inventory.ofRecords before).entriesAt a.place
        l.merge a = (l ++ [a.placed], .inserted l.length)) ∧
      (∀ p, loaded.inventory.entriesAt p = (addressed p loaded.records).map (·.placed)) ∧
      (∀ a ∈ assignments loaded.records, ∀ p,
        (loaded.inventory.entriesAt p).filter (VariableList.carries a.id) = if a.place = p then [a.placed] else []) ∧
      ∀ p origin name, Layer.find? ⟨origin, loaded.inventory.entriesAt p⟩ name =
        (lastWith? (·.entry.name) name (addressed p loaded.records)).map (·.placed) := by
  obtain ⟨loaded, hloaded, hrecords, hascending⟩ := ofDocuments_of_readAs (forall₂_readAs hdocs) hcount hls
  refine ⟨loaded, hloaded, fun files path hfiles => ?_, hrecords, hascending.ids, fun before a after hsplit => ?_,
    Inventory.entriesAt_of_ascending hascending, fun a ha p => Inventory.filter_carries_entriesAt hascending ha p,
    fun p origin name => ?_⟩
  · subst hfiles
    rw [ofPath_eq_ofDocuments hne, hloaded]
  · rw [hsplit] at hascending
    exact Inventory.merge_entriesAt hascending
  · rw [inventory, Inventory.entriesAt_ofRecords,
      (hascending.sublist (Inventory.addressed_sublist p loaded.records)).find?_layer]

/-- Two files that give one project a variable of one name. -/
def shopFiles : List (String × List UInt8) :=
  [("base.toml", "[[project]]\nname = \"shop\"\nvars.port = 80\noverrides.live.port = 443\n".toUTF8.data.toList),
    ("local.toml", "[[project]]\nname = \"shop\"\nvars.port = 8080\n".toUTF8.data.toList)]

theorem shopFiles_keeps_every_assignment : ∃ ls, shopFiles ≠ [] ∧
    shopFiles.mapM (fun f => statementsOf? f.2) = some ls ∧ shopFiles.length < twoTo 64 ∧
    (∀ l ∈ ls, l.length < twoTo 64) ∧
    (∃ loaded, ofDocuments shopFiles = .ok loaded ∧ loaded.records = recordsOfAll ls ∧
      (assignments loaded.records).Pairwise (fun a b => a.id < b.id) ∧
      loaded.inventory.entriesAt (.project "shop" none) =
        (addressed (.project "shop" none) loaded.records).map (·.placed)) ∧
    (ofDocuments shopFiles).toOption.map (fun loaded =>
      (loaded.inventory.entriesAt (.project "shop" none)).map fun e => (e.name, e.id)) =
        some [("port", some ⟨1, [1]⟩), ("port", some ⟨2, [1]⟩)] := by
  have hsome : (shopFiles.mapM fun f => statementsOf? f.2).isSome = true := by decide +kernel
  have hls : ∀ l ∈ (shopFiles.mapM fun f => statementsOf? f.2).get (by decide +kernel), l.length < twoTo 64 := by
    decide +kernel
  have hne : shopFiles ≠ [] := List.cons_ne_nil _ _
  have hcount : shopFiles.length < twoTo 64 := by decide
  obtain ⟨loaded, hloaded, -, hrecords, hids, -, hentries, -, -⟩ :=
    ofDocuments_keeps_every_assignment hne (Option.some_get hsome).symm hcount hls
  exact ⟨_, hne, (Option.some_get hsome).symm, hcount, hls, ⟨loaded, hloaded, hrecords, hids, hentries _⟩,
    by decide +kernel⟩

end LoadedInventory
end DeployInventory
