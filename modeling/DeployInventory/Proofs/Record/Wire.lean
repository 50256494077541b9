import DeployInventory.Proofs.Variable.Wire
import DeployInventory.Record.Wire
/-!
# Proofs.Record.Wire — records and their wire form

A record is read from the fields that are written of it in whatever layout, its entry as entries are read there
(`ofJson_layout`). A job order has to fit 64 bits, as it does wherever a record is read. Two records with one document
are equal (`toJson_injective`), whatever the job order.
-/
namespace DeployInventory

open Wire

namespace Json

theorem texts_injective {l l' : List String} (h : texts l = texts l') : l = l' :=
  List.map_injective_iff.2 (fun _ _ => Json.string.inj) (Json.array.inj h)

theorem textOrNull_injective {o o' : Option String} (h : textOrNull o = textOrNull o') : o = o' := by
  cases o <;> cases o' <;> simp_all [textOrNull]

theorem integerOrNull_injective {o o' : Option Int} (h : integerOrNull o = integerOrNull o') : o = o' := by
  cases o <;> cases o' <;> simp_all [integerOrNull, integer]

end Json

section Declarations

variable {fs : List (String × Json)}

theorem EnvironmentRecord.ofJson_eq_ok {r : EnvironmentRecord}
    (h : ∀ key, NameMap.valueOf? key fs = NameMap.valueOf? key r.toFields) : ofJson (.object fs) = .ok r := by
  have habstract : orDefault fs "abstract" flag false = .ok r.isAbstract := orDefault_eq_ok (h "abstract") rfl
  have hdescription : optional fs "description" text = .ok r.description := optional_text (h "description")
  have hname : present fs "name" text = .ok (some r.name) := present_eq_ok (h "name") rfl
  have hparents : orDefault fs "parents" (list text) [] = .ok r.parents := orDefault_eq_ok (h "parents") (list_texts _)
  simp only [ofJson, fields, bind, Except.bind, habstract, hdescription, hname, hparents]
  rfl

theorem ProjectRecord.ofJson_eq_ok {r : ProjectRecord} (hr : ∀ n ∈ r.jobOrder, FitsInt64 n)
    (h : ∀ key, NameMap.valueOf? key fs = NameMap.valueOf? key r.toFields) : ofJson (.object fs) = .ok r := by
  have habstract : orDefault fs "abstract" flag false = .ok r.isAbstract := orDefault_eq_ok (h "abstract") rfl
  have hdescription : optional fs "description" text = .ok r.description := optional_text (h "description")
  have hgroups : orDefault fs "host_groups" (list text) [] = .ok r.hostGroups :=
    orDefault_eq_ok (h "host_groups") (list_texts _)
  have horder : optional fs "job_order" int64 = .ok r.jobOrder := optional_int64 (h "job_order") hr
  have hname : present fs "name" text = .ok (some r.name) := present_eq_ok (h "name") rfl
  have hparents : orDefault fs "parents" (list text) [] = .ok r.parents := orDefault_eq_ok (h "parents") (list_texts _)
  simp only [ofJson, fields, bind, Except.bind, habstract, hdescription, hgroups, horder, hname, hparents]
  rfl

theorem ProjectRecord.toFields_injective {r s : ProjectRecord} (h : r.toFields = s.toFields) : r = s := by
  simp only [toFields, List.cons.injEq, Prod.mk.injEq, true_and, and_true] at h
  obtain ⟨hname, hparents, habstract, hdescription, horder, hgroups⟩ := h
  have hname : r.name = s.name := Json.string.inj hname
  have hparents : r.parents = s.parents := Json.texts_injective hparents
  have habstract : r.isAbstract = s.isAbstract := Json.bool.inj habstract
  have hdescription : r.description = s.description := Json.textOrNull_injective hdescription
  have horder : r.jobOrder = s.jobOrder := Json.integerOrNull_injective horder
  have hgroups : r.hostGroups = s.hostGroups := Json.texts_injective hgroups
  cases r
  cases s
  simp_all only

theorem HostGroupRecord.ofJson_eq_ok {r : HostGroupRecord}
    (h : ∀ key, NameMap.valueOf? key fs = NameMap.valueOf? key r.toFields) : ofJson (.object fs) = .ok r := by
  have hdescription : optional fs "description" text = .ok r.description := optional_text (h "description")
  have hname : present fs "name" text = .ok (some r.name) := present_eq_ok (h "name") rfl
  have hparents : orDefault fs "parents" (list text) [] = .ok r.parents := orDefault_eq_ok (h "parents") (list_texts _)
  simp only [ofJson, fields, bind, Except.bind, hdescription, hname, hparents]
  rfl

theorem HostRecord.ofJson_eq_ok {r : HostRecord}
    (h : ∀ key, NameMap.valueOf? key fs = NameMap.valueOf? key r.toFields) : ofJson (.object fs) = .ok r := by
  have haddress : present fs "address" text = .ok (some r.address) := present_eq_ok (h "address") rfl
  have henvironment : optional fs "environment" text = .ok r.environment := optional_text (h "environment")
  have hgroup : present fs "host_group" text = .ok (some r.hostGroup) := present_eq_ok (h "host_group") rfl
  have hname : present fs "name" text = .ok (some r.name) := present_eq_ok (h "name") rfl
  simp only [ofJson, fields, bind, Except.bind, haddress, henvironment, hgroup, hname]
  rfl

theorem PlaybookRecord.ofJson_eq_ok {r : PlaybookRecord}
    (h : ∀ key, NameMap.valueOf? key fs = NameMap.valueOf? key r.toFields) : ofJson (.object fs) = .ok r := by
  have habstract : orDefault fs "abstract" flag false = .ok r.isAbstract := orDefault_eq_ok (h "abstract") rfl
  have hdescription : optional fs "description" text = .ok r.description := optional_text (h "description")
  have hname : present fs "name" text = .ok (some r.name) := present_eq_ok (h "name") rfl
  have hparents : orDefault fs "parents" (list text) [] = .ok r.parents := orDefault_eq_ok (h "parents") (list_texts _)
  simp only [ofJson, fields, bind, Except.bind, habstract, hdescription, hname, hparents]
  rfl

theorem PlayRecord.ofJson_eq_ok {r : PlayRecord}
    (h : ∀ key, NameMap.valueOf? key fs = NameMap.valueOf? key r.toFields) : ofJson (.object fs) = .ok r := by
  have hdescription : optional fs "description" text = .ok r.description := optional_text (h "description")
  have hgroups : orDefault fs "host_groups" (list text) [] = .ok r.hostGroups :=
    orDefault_eq_ok (h "host_groups") (list_texts _)
  have hname : present fs "name" text = .ok (some r.name) := present_eq_ok (h "name") rfl
  have hplaybook : present fs "playbook" text = .ok (some r.playbook) := present_eq_ok (h "playbook") rfl
  have htags : orDefault fs "tags" (list text) [] = .ok r.tags := orDefault_eq_ok (h "tags") (list_texts _)
  simp only [ofJson, fields, bind, Except.bind, hdescription, hgroups, hname, hplaybook, htags]
  rfl

end Declarations

/-! ## Assignments -/

namespace Assignment

variable {inRecord : Bool} {fs : List (String × Json)} {form : Json → Json} {normal : VariableEntry → VariableEntry}

/-- The slots of a draft, in the order of the keys. -/
def Draft.slots (inRecord : Bool) : List (Slot Draft) :=
  [⟨"id", fun j => (Wire.id j).map some, (·.id), fun d a => { d with id := a }⟩,
    ⟨"variable", fun j => (VariableEntry.read inRecord j).map some, (·.entry), fun d a => { d with entry := a }⟩,
    ⟨"disabled", flag, (·.disabled), fun d a => { d with disabled := a }⟩,
    ⟨"environment", textOrNull, (·.environment), fun d a => { d with environment := a }⟩,
    ⟨"project", textOrNull, (·.project), fun d a => { d with project := a }⟩,
    ⟨"playbook", textOrNull, (·.playbook), fun d a => { d with playbook := a }⟩,
    ⟨"play", textOrNull, (·.play), fun d a => { d with play := a }⟩]

theorem Draft.fills : Fills (takeField inRecord) (slots inRecord) where
  distinct := by simp [slots]
  take_slot := by
    simp only [slots, List.forall_mem_cons, List.not_mem_nil, false_imp_iff, takeField, implies_true, and_true]
    refine ⟨fun d j => ?id, fun d j => ?entry, fun d j => ?disabled, fun d j => ?environment, fun d j => ?project,
      fun d j => ?playbook, fun d j => ?play⟩
    case id => cases Wire.id j <;> rfl
    case entry => cases VariableEntry.read inRecord j <;> rfl
    case disabled => cases flag j <;> rfl
    all_goals cases textOrNull j <;> rfl
  take_other key hkey d j := by
    simp only [slots, List.map_cons, List.map_nil, List.mem_cons, List.not_mem_nil, or_false, not_or] at hkey
    simp [takeField, hkey]
  get_set := by simp [slots]
  get_set_of_ne := by simp [slots]

theorem Draft.eq_of_slots {d last : Draft} (h : ∀ s ∈ slots inRecord, s.get d = s.get last) : d = last := by
  simp only [slots, List.forall_mem_cons, List.not_mem_nil, false_imp_iff, implies_true, and_true] at h
  cases d
  cases last
  simp_all only

theorem scopeField_eq_writtenField (key : String) (o : Option String) :
    scopeField key o = VariableWire.writtenField key .string o := by
  cases o <;> rfl

theorem sublist_keys (a : Assignment) : (a.toFields.map Prod.fst).Sublist keys := by
  show List.Sublist _ (["id", "variable", "disabled"] ++ ["environment"] ++ ["project"] ++ ["playbook"] ++ ["play"])
  simp only [toFields, scopeField_eq_writtenField, List.map_append]
  repeat' apply List.Sublist.append
  · exact List.Sublist.refl _
  all_goals exact VariableWire.map_fst_writtenField _ _ _

/-- **An assignment is read from its fields**, laid out, with its entry as it is read in the layout. -/
theorem read_eq_ok (hform : Json.Layout form)
    (hread : ∀ e : VariableEntry, VariableEntry.read inRecord (form e.toJson) = .ok (normal e)) (a : Assignment)
    (hfs : (fs.map Prod.fst).Nodup)
    (h : ∀ key, NameMap.valueOf? key fs = (NameMap.valueOf? key a.toFields).map form) :
    read inRecord (.object fs) = .ok { a with entry := normal a.entry } := by
  have hid : NameMap.valueOf? "id" fs = some (form (.string a.id.text)) := h "id"
  have hentry : NameMap.valueOf? "variable" fs = some (form a.entry.toJson) := h "variable"
  have hdisabled : NameMap.valueOf? "disabled" fs = some (form (.bool a.disabled)) := h "disabled"
  have hscope : ∀ {key o}, NameMap.valueOf? key a.toFields = o.map .string → Taken fs key textOrNull none o := by
    intro key o hkey
    have hwritten : NameMap.valueOf? key fs = o.map fun s => form (.string s) := by
      rw [h, hkey, Option.map_map]
      rfl
    rw [textOrNull_eq_orNull]
    exact taken_of_inverse hwritten fun s => by rw [hform.string]; rfl
  have hslots : ∀ s ∈ Draft.slots inRecord, Taken fs s.key s.read (s.get {}) (s.get
      ⟨some a.id, some (normal a.entry), a.disabled, a.environment, a.project, a.playbook, a.play⟩) := by
    simp only [Draft.slots, List.forall_mem_cons, List.not_mem_nil, false_imp_iff, implies_true, and_true]
    refine ⟨?id, ?entry, ?disabled, hscope ?_, hscope ?_, hscope ?_, hscope ?_⟩
    case id =>
      rw [Taken, hid, hform.string]
      simp only [id_text, Except.map]
    case entry =>
      rw [Taken, hentry]
      simp only [hread, Except.map]
    case disabled =>
      rw [Taken, hdisabled, hform.bool]
      rfl
    all_goals
      simp [toFields, scopeField_eq_writtenField, NameMap.valueOf?_append, VariableWire.valueOf?_writtenField,
        NameMap.valueOf?]
  obtain ⟨d, hd, hlast⟩ := Draft.fills.foldlM hfs hslots
  rw [read, foldFields, hd, Draft.eq_of_slots hlast]
  rfl

end Assignment

/-! ## Records -/

namespace Record

variable {form : Json → Json} {normal : VariableEntry → VariableEntry}

/-- The job order of a project fits 64 bits. -/
def InRange : Record → Prop
  | .project r => ∀ n ∈ r.jobOrder, FitsInt64 n
  | _ => True

/-- The record with its entry changed, if it assigns one. -/
def mapEntry (f : VariableEntry → VariableEntry) : Record → Record
  | .assignment a => .assignment { a with entry := f a.entry }
  | r => r

/-- **The record with its documents and its maps in key order.** -/
def sorted : Record → Record := mapEntry VariableEntry.sorted

theorem mapEntry_id (r : Record) : r.mapEntry (fun e => e) = r := by
  cases r <;> rfl

theorem nodup_fields (r : Record) : ((("kind", Json.string r.kindName) :: r.toFields).map Prod.fst).Nodup := by
  cases r with
  | assignment a => exact (a.sublist_keys.cons_cons "kind").nodup (by decide)
  | environment r => simp [toFields, EnvironmentRecord.toFields]
  | project r => simp [toFields, ProjectRecord.toFields]
  | hostGroup r => simp [toFields, HostGroupRecord.toFields]
  | host r => simp [toFields, HostRecord.toFields]
  | playbook r => simp [toFields, PlaybookRecord.toFields]
  | play r => simp [toFields, PlayRecord.toFields]

/-- A record is read by its kind, without the field that names it. -/
theorem exists_ofKind (hform : Json.Layout form) (r : Record) :
    ∃ fs, ofJson (form r.toJson) = ofKind r.kindName (.object fs) ∧ (fs.map Prod.fst).Nodup ∧
      ∀ key, NameMap.valueOf? key fs = (NameMap.valueOf? key r.toFields).map form := by
  obtain ⟨fs, hfs, hnodup, hkey⟩ := hform.object _ r.nodup_fields
  refine ⟨fs.filter fun e => e.1 != "kind", ?_, (List.filter_sublist.map Prod.fst).nodup hnodup, fun key => ?_⟩
  · have hkind : present fs "kind" text = .ok (some r.kindName) :=
      present_eq_ok (hkey "kind") (by rw [hform.string]; rfl)
    rw [toJson, hfs, ofJson, hkind]
    rfl
  · rw [NameMap.valueOf?_filter (· != "kind"), hkey, NameMap.valueOf?.eq_2]
    by_cases h : "kind" = key
    · subst h
      rw [NameMap.valueOf?_eq_none_iff.2 (List.nodup_cons.1 r.nodup_fields).1]
      rfl
    · rw [if_pos (by simpa using Ne.symm h), if_neg h]

/-- **A record is read from its document**, laid out, with its entry as it is read in the layout. -/
theorem ofJson_layout (hform : Json.Layout form)
    (hread : ∀ e : VariableEntry, VariableEntry.read true (form e.toJson) = .ok (normal e)) {r : Record}
    (hr : r.InRange) : ofJson (form r.toJson) = .ok (r.mapEntry normal) := by
  obtain ⟨fs, hkind, hfs, hkey⟩ := exists_ofKind hform r
  -- what is not in an entry is written alike in every layout
  have hplain : (∀ e ∈ r.toFields, form e.2 = e.2) →
      ∀ key, NameMap.valueOf? key fs = NameMap.valueOf? key r.toFields :=
    fun h key => (hkey key).trans (NameMap.map_valueOf?_of_forall h)
  rw [hkind]
  cases r with
  | environment r =>
    refine map_eq_ok_iff.2 ⟨r, EnvironmentRecord.ofJson_eq_ok (hplain ?_), rfl⟩
    simp [toFields, EnvironmentRecord.toFields, hform.string, hform.bool, hform.texts, hform.textOrNull]
  | project r =>
    refine map_eq_ok_iff.2 ⟨r, ProjectRecord.ofJson_eq_ok hr (hplain ?_), rfl⟩
    simp [toFields, ProjectRecord.toFields, hform.string, hform.bool, hform.texts, hform.textOrNull,
      hform.integerOrNull]
  | hostGroup r =>
    refine map_eq_ok_iff.2 ⟨r, HostGroupRecord.ofJson_eq_ok (hplain ?_), rfl⟩
    simp [toFields, HostGroupRecord.toFields, hform.string, hform.texts, hform.textOrNull]
  | host r =>
    refine map_eq_ok_iff.2 ⟨r, HostRecord.ofJson_eq_ok (hplain ?_), rfl⟩
    simp [toFields, HostRecord.toFields, hform.string, hform.textOrNull]
  | playbook r =>
    refine map_eq_ok_iff.2 ⟨r, PlaybookRecord.ofJson_eq_ok (hplain ?_), rfl⟩
    simp [toFields, PlaybookRecord.toFields, hform.string, hform.bool, hform.texts, hform.textOrNull]
  | play r =>
    refine map_eq_ok_iff.2 ⟨r, PlayRecord.ofJson_eq_ok (hplain ?_), rfl⟩
    simp [toFields, PlayRecord.toFields, hform.string, hform.texts, hform.textOrNull]
  | assignment a => exact map_eq_ok_iff.2 ⟨_, Assignment.read_eq_ok hform hread a hfs hkey, rfl⟩

theorem ofJson_toJson {r : Record} (hr : r.InRange) : ofJson r.toJson = .ok r := by
  have hread := ofJson_layout Json.layout_written (VariableEntry.roundTrips true).read_write hr
  rwa [mapEntry_id] at hread

/-- **A record is told by its document.** One in range is read back from it, and a project whose job order is not is
told by its fields. -/
theorem toJson_injective {r s : Record} (h : r.toJson = s.toJson) : r = s := by
  obtain ⟨hkind, hfields⟩ := List.cons.inj (Json.object.inj h)
  have hkind : r.kindName = s.kindName := Json.string.inj (congrArg Prod.snd hkind)
  have hread : r.InRange → s.InRange → r = s := by
    intro hr hs
    have hok : (.ok r : Decoded Record) = .ok s := by rw [← ofJson_toJson hr, h, ofJson_toJson hs]
    exact Except.ok.inj hok
  -- Only projects can be out of range, and they are compared field by field.
  cases r with
  | project r =>
    cases s with
    | project s => exact congrArg project (ProjectRecord.toFields_injective hfields)
    | environment | hostGroup | host | playbook | play | assignment => simp [kindName] at hkind
  | environment | hostGroup | host | playbook | play | assignment =>
    cases s with
    | project s => simp [kindName] at hkind
    | environment | hostGroup | host | playbook | play | assignment => exact hread trivial trivial

end Record

end DeployInventory
