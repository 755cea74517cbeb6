import SchemaGraph.Proofs.Mentions

/-!
# Commands in place

`Workspace.execute` yields a whole new workspace or none. A program that changes schemas in place
has no such choice: if it finds something at fault, what it has written before stays written.
`Workspace.perform` gives the commands as such programs. They do the same as a step, because each of
them has looked at everything that can be at fault before it writes for the first time.

So a command that is refused, or that does not find what it is for, leaves everything as it was, and
a change of the fields of a schema is one write to its table. Handles are not written to; whoever
holds one sees the new table, and a snapshot holds the old one.

* `Workspace.start_perform`: the programs do what the steps do.
* `Workspace.OnlyTable`: nothing but the table of one instance differs.
* `Workspace.Reachable.perform_in_place`: what the commands may change, and when.
-/

namespace SchemaGraph.Workspace

open Script

variable {w next : Workspace} {c : Command}

/-! ## Looks come before writes -/

theorem start_mapM_buildField (specs : List FieldSpec) (w : Workspace) :
    (specs.mapM buildField).start w = (specs.mapM w.field, w) := by
  induction specs with
  | nil => rfl
  | cons spec specs ih =>
    have hspec : (buildField spec).start w = (w.field spec, w) := rfl
    rw [List.mapM_cons, List.mapM_cons, start_bind, hspec]
    cases w.field spec with
    | error refusal => rfl
    | ok f =>
      dsimp only
      rw [start_bind, ih]
      cases specs.mapM w.field with
      | error refusal => rfl
      | ok fs => rfl

theorem step_eq_settle (w : Workspace) (c : Command) : w.step c = settle w (w.execute c) := by
  unfold step settle
  cases w.execute c with
  | error refusal => rfl
  | ok outcome => rfl

theorem start_keepReply (target : Option String) (found : Option (Field Handle)) (w : Workspace) :
    (keepReply target found).start w = settle w (.ok (w.keepFound target found)) := by
  cases found with
  | none => rfl
  | some f => rfl

/-- The program of a command does what the step does. -/
theorem start_perform (w : Workspace) (c : Command) : (perform c).start w = w.step c := by
  rw [step_eq_settle]
  unfold perform execute
  -- The looks of the program are matched with those of the step, one by one; then it only writes.
  cases c with
  | create target identifier => rfl
  | createWith target specs source identifier =>
    apply start_bind_eq_settle (start_mapM_buildField specs w)
    intro fields
    rw [Heap.createWith, orRefuse_bind, bind_assoc]
    apply start_bind_eq_settle (start_look _ w)
    intro table
    rfl
  | share schema target =>
    apply start_bind_eq_settle (start_look _ w)
    intro s
    rfl
  | forget schema => rfl
  | install schema specs =>
    apply start_bind_eq_settle (start_look _ w)
    intro s
    apply start_bind_eq_settle (start_mapM_buildField specs w)
    intro fields
    rw [Heap.install, orRefuse_bind, bind_assoc]
    apply start_bind_eq_settle (start_look _ w)
    intro table
    rfl
  | remove schema name target =>
    apply start_bind_eq_settle (start_look _ w)
    intro s
    rw [start_look_bind, Heap.removeField?]
    cases (w.heap.table s).remove? name with
    | none => rfl
    | some removed => rfl
  | rename schema name newName =>
    apply start_bind_eq_settle (start_look _ w)
    intro s
    rw [start_look_bind, Heap.renameField, FieldTable.rename]
    cases (w.heap.table s).nameIndex[name]? with
    | none => rfl
    | some i =>
      dsimp only
      cases (w.heap.table s).fields[i]? with
      | none => rfl
      | some f =>
        dsimp only
        rw [bind_assoc, orRefuse_bind, bind_assoc]
        apply start_bind_eq_settle (start_look _ w)
        intro renamed
        rw [bind_map_left, orRefuse_bind, bind_assoc]
        apply start_bind_eq_settle (start_look _ w)
        intro edited
        rfl
  | setName schema name =>
    apply start_bind_eq_settle (start_look _ w)
    intro s
    rfl
  | setNamespace schema nameSpace =>
    apply start_bind_eq_settle (start_look _ w)
    intro s
    rfl
  | snapshot schema target =>
    apply start_bind_eq_settle (start_look _ w)
    intro s
    rfl
  | keepNamed schema text target =>
    apply start_bind_eq_settle (start_look _ w)
    intro s
    exact start_keepReply target _ w
  | keepAt schema position target =>
    apply start_bind_eq_settle (start_look _ w)
    intro s
    exact start_keepReply target _ w
  | keepBuilt spec target =>
    apply start_bind_eq_settle (start_look _ w)
    intro f
    exact start_keepReply target _ w
  | keepRenamed spec newName target =>
    apply start_bind_eq_settle (start_look _ w)
    intro f
    apply start_bind_eq_settle (start_look _ w)
    intro renamed
    exact start_keepReply target _ w

/-! ## What is left as it was -/

/-- The command was refused, or did not find what it is for. -/
inductive Declines (c : Command) : Except Refusal Reply → Prop
  | refused (refusal : Refusal) : Declines c (.error refusal)
  | missing : Declines c (.ok (.field none))
  | unnamed {schema name newName : String} (command : c = .rename schema name newName) :
      Declines c (.ok (.answer false))

theorem eq_of_keepFound_none {target : Option String} {found : Option (Field Handle)}
    (h : w.keepFound target found = (.field none, next)) : next = w := by
  cases found with
  | none => exact (Prod.mk.inj h).2.symm
  | some f => cases (Prod.mk.inj h).1

theorem eq_of_execute_none (h : w.execute c = .ok (.field none, next)) : next = w := by
  cases c with
  | create => cases (Prod.mk.inj (Except.ok.inj h)).1
  | forget => cases (Prod.mk.inj (Except.ok.inj h)).1
  | createWith =>
    obtain ⟨fields, -, h⟩ := bind_eq_ok_iff.mp h
    obtain ⟨created, -, h⟩ := bind_eq_ok_iff.mp h
    cases (Prod.mk.inj (Except.ok.inj h)).1
  | share | setName | setNamespace | snapshot =>
    obtain ⟨s, -, h⟩ := bind_eq_ok_iff.mp h
    cases (Prod.mk.inj (Except.ok.inj h)).1
  | install =>
    obtain ⟨s, fields, table, -, -, -, hreply, -⟩ := exists_of_execute_install h
    cases hreply
  | remove =>
    rcases execute_remove_cases h with ⟨-, hnext⟩ | ⟨s, f, table, -, -, hreply, -⟩
    · exact hnext
    · cases hreply
  | rename =>
    rcases execute_rename_cases h with ⟨hreply, -⟩ | ⟨s, table, -, -, hreply, -⟩
    · cases hreply
    · cases hreply
  | keepNamed | keepAt =>
    obtain ⟨s, -, h⟩ := bind_eq_ok_iff.mp h
    exact eq_of_keepFound_none (Except.ok.inj h)
  | keepBuilt =>
    obtain ⟨f, -, h⟩ := bind_eq_ok_iff.mp h
    exact eq_of_keepFound_none (Except.ok.inj h)
  | keepRenamed =>
    obtain ⟨f, -, h⟩ := bind_eq_ok_iff.mp h
    obtain ⟨g, -, h⟩ := bind_eq_ok_iff.mp h
    exact eq_of_keepFound_none (Except.ok.inj h)

theorem Declines.eq_of_step {reply : Except Refusal Reply} (hdeclines : Declines c reply)
    (h : w.step c = (reply, next)) : next = w := by
  cases hdeclines with
  | refused refusal => exact eq_of_step_error h
  | missing => exact eq_of_execute_none (execute_of_step h)
  | unnamed command =>
    subst command
    rcases execute_rename_cases (execute_of_step h) with ⟨-, hnext⟩ | ⟨s, table, -, -, hreply, -⟩
    · exact hnext
    · cases hreply

/-! ## What is changed -/

/-- Nothing but the table of one instance differs: a handle stands for the same instance as before,
with the new table if it is that one. This is so for every handle that is mentioned afterwards. -/
structure OnlyTable (w next : Workspace) (s : Handle) (table : FieldTable Handle) : Prop where
  schemas : next.schemas = w.schemas
  snapshots : next.snapshots = w.snapshots
  handles : next.heap.handles = w.heap.handles
  instances : ∀ r i, w.heap.instance? r = some i →
    next.heap.instance? r = some (if r = s then { i with table } else i)
  mentioned : ∀ r, next.Mentions r → ∃ i, w.heap.instance? r = some i

theorem onlyTable_of_heap {s : Handle} {table : FieldTable Handle} (hnext : next.Reachable)
    (hheap : next.heap = w.heap.setTable s table) (hschemas : next.schemas = w.schemas)
    (hsnapshots : next.snapshots = w.snapshots) : w.OnlyTable next s table where
  schemas := hschemas
  snapshots := hsnapshots
  handles := by
    rw [hheap]
    exact Heap.handles_update ..
  instances r i hi := by
    rw [hheap, Heap.setTable, Heap.instance?_update, hi]
    split <;> rfl
  mentioned r hr := by
    have hmem := hnext.mem_handles hr
    rw [hheap, Heap.setTable, Heap.handles_update] at hmem
    exact Heap.mem_handles_iff_exists.mp hmem

/-- **Commands change what they are for, and nothing when they fail.** The commands, run as programs
whose writes stay, do what the steps do. In a workspace that can be reached, a command that is
refused or does not find its field leaves everything as it was; and a command that changes the
fields of a schema changes the table of that one instance, for everyone who holds a handle of it. -/
theorem Reachable.perform_in_place (hw : w.Reachable) :
    (∀ c, (perform c).start w = w.step c) ∧
    (∀ c reply next, (perform c).start w = (reply, next) → Declines c reply → next = w) ∧
    (∀ schema specs next, (perform (.install schema specs)).start w = (.ok .done, next) →
      ∃ s fields, w.schemas[schema]? = some s ∧ specs.mapM w.field = .ok fields ∧
        w.OnlyTable next s (.indexed fields) ∧ next.fields = w.fields) ∧
    (∀ schema name target f next,
      (perform (.remove schema name target)).start w = (.ok (.field (some f)), next) →
      ∃ s table, w.schemas[schema]? = some s ∧
        (w.heap.table s).remove? name = some (f, table) ∧
        w.OnlyTable next s table ∧ next.fields = (w.keepField target f).fields) ∧
    ∀ schema name newName next,
      (perform (.rename schema name newName)).start w = (.ok (.answer true), next) →
      ∃ s table, w.schemas[schema]? = some s ∧
        (w.heap.table s).rename name newName = .ok (some table) ∧
        w.OnlyTable next s table ∧ next.fields = w.fields := by
  refine ⟨start_perform w, ?_, ?_, ?_, ?_⟩
  · intro c reply next h hdeclines
    rw [start_perform] at h
    exact hdeclines.eq_of_step h
  · intro schema specs next h
    rw [start_perform] at h
    have hnext := hw.of_step h
    obtain ⟨s, fields, table, hs, hfields, htable, -, rfl⟩ :=
      exists_of_execute_install (execute_of_step h)
    obtain ⟨-, rfl⟩ := FieldTable.build_eq_ok_iff.mp htable
    exact ⟨s, fields, hs, hfields, onlyTable_of_heap hnext rfl rfl rfl, rfl⟩
  · intro schema name target f next h
    rw [start_perform] at h
    have hnext := hw.of_step h
    rcases execute_remove_cases (execute_of_step h) with
      ⟨hreply, -⟩ | ⟨s, g, table, hs, hremove, hreply, rfl⟩
    · cases hreply
    · obtain rfl : f = g := Option.some.inj (Reply.field.inj hreply)
      refine ⟨s, table, hs, hremove, ?_⟩
      cases target with
      | none => exact ⟨onlyTable_of_heap hnext rfl rfl rfl, rfl⟩
      | some target => exact ⟨onlyTable_of_heap hnext rfl rfl rfl, rfl⟩
  · intro schema name newName next h
    rw [start_perform] at h
    have hnext := hw.of_step h
    rcases execute_rename_cases (execute_of_step h) with
      ⟨hreply, -⟩ | ⟨s, table, hs, hrename, -, rfl⟩
    · cases hreply
    · exact ⟨s, table, hs, hrename, onlyTable_of_heap hnext rfl rfl rfl, rfl⟩

/-- A schema that refers to itself, with two names and a snapshot. -/
def linked : Workspace :=
  empty.run
    [.create "a" .empty, .share "a" "b",
      .install "a"
        [.built ⟨"value", .basic .int, none, .empty, true⟩,
          .built ⟨"next", .record "b", none, .ofList ["n"], true⟩],
      .snapshot "a" "before"]

/-- A new name that is empty, one that is taken, a field that is called so only by an alias, and a
field that is there. -/
theorem perform_linked :
    linked.Reachable ∧
    ((perform (.rename "a" "value" "")).start linked).2 = linked ∧
    ((perform (.rename "b" "value" "n")).start linked).2 = linked ∧
    ((perform (.rename "a" "n" "m")).start linked).2 = linked ∧
    ∃ f table, ((perform (.remove "b" "value" none)).start linked).1 = .ok (.field (some f)) ∧
      linked.OnlyTable ((perform (.remove "b" "value" none)).start linked).2 ⟨0⟩ table := by
  have reachable : linked.Reachable := ⟨_, rfl⟩
  obtain ⟨-, hdeclined, -, hremove, -⟩ := reachable.perform_in_place
  have hempty : ((perform (.rename "a" "value" "")).start linked).1 =
      .error (.invalid .emptyName) := by cbv
  have htaken : ((perform (.rename "b" "value" "n")).start linked).1 =
      .error (.invalid (.duplicateIdentifier "n")) := by cbv
  have hmissing : ((perform (.rename "a" "n" "m")).start linked).1 = .ok (.answer false) := by
    cbv
  have hremoved : ((perform (.remove "b" "value" none)).start linked).1 =
      .ok (.field (some ⟨"value", .basic .int, none, .empty, true⟩)) := by cbv
  have hnamed : linked.schemas["b"]? = some ⟨0⟩ := by cbv
  obtain ⟨s, table, hs, -, honly, -⟩ := hremove "b" "value" none _ _ (Prod.ext hremoved rfl)
  obtain rfl : ⟨0⟩ = s := Option.some.inj (hnamed.symm.trans hs)
  refine ⟨reachable, ?_, ?_, ?_, _, table, hremoved, honly⟩
  · exact hdeclined _ _ _ (Prod.ext hempty rfl) (.refused _)
  · exact hdeclined _ _ _ (Prod.ext htaken rfl) (.refused _)
  · exact hdeclined _ _ _ (Prod.ext hmissing rfl) (.unnamed rfl)

end SchemaGraph.Workspace
