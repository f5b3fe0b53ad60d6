import ConfigTree.Proofs.CommandLine.Host

/-! What a run leaves behind.  An edited document is stored after everything else that can go wrong:
a run that fails has written nothing, and one that succeeds has written one document to one place.
There are two exceptions.  Removing stores what is left also when some paths could not be removed,
and what is printed may be broken off, when the host fails in the middle of it. -/

namespace ConfigTree

theorem Removal.exitCode_failure {removal : Removal} {e : Error} (h : removal.failure = some e) :
    e.exitCode = 1 := by
  unfold Removal.failure at h
  split at h
  · cases h
  · cases h
    rfl

end ConfigTree

namespace ConfigTree.CommandLine

/-! ## Reading -/

section

variable {σ γ : Type} {host : Host (StateM σ)} {view : View σ} {part : Scene view.File → γ}

theorem View.Quiet.keeps {α : Type} {act : StateM σ α} (h : view.Quiet act) :
    view.Keeps part act := fun s => congrArg part (h s)

namespace Host.Lawful

variable (h : host.Lawful view)
include h

theorem fileText (path : String) : view.Quiet (host.fileText path).run := .act (h.file path) _

theorem inputText : view.Quiet host.inputText.run := .act h.input _

theorem documentText (i : Invocation) : view.Quiet (host.documentText i).run := by
  unfold Host.documentText
  split
  · exact .bind (h.fileText _) fun _ => .pure _
  · refine .bind (.lift h.isInteractive) fun interactive => ?_
    cases interactive with
    | true => exact .throw _
    | false => exact .bind h.inputText fun _ => .pure _

theorem load (i : Invocation) : view.Quiet (host.load i).run :=
  .bind (h.documentText i) fun _ => .liftExcept _

theorem valueText (i : Invocation) (inline : Option String) :
    view.Quiet (host.valueText i inline).run := by
  unfold Host.valueText
  simp only
  split
  · exact .throw _
  · split
    · exact .pure _
    · exact .bind (h.fileText _) fun _ => .pure _
    · exact .bind h.inputText fun _ => .pure _

end Host.Lawful

end

/-! ## Editing -/

/-- The document after an edit that is done. -/
def settled (edited : Edited Document) : Except Error Document :=
  match edited.failure with
  | none => .ok edited.value
  | some e => .error e

section

variable {m : Type → Type} [Monad m] (host : Host m) (i : Invocation)

/-- An edit without the storing: the document to store, and what the run fails with all the same. -/
def Host.edit? : Option (ExceptT Error m (Document × Option Error)) :=
  match i.action with
  | .set kind path value => some do
    let path ← liftExcept (requirePath path)
    let kind ← liftExcept (requireKind kind)
    let document ← host.load i
    let text ← host.valueText i value
    return (← liftExcept (settled (document.setText i.delimiter path text kind i.reading)), none)
  | .merge path value => some do
    let path ← liftExcept (requirePath path)
    let document ← host.load i
    let text ← host.valueText i value
    return (← liftExcept (settled (document.mergeText i.delimiter path text i.reading)), none)
  | .remove paths => some do
    let document ← host.load i
    let (document, removal) ← liftExcept (document.removePaths i.delimiter paths)
    removal.failures.forM fun (path, e) =>
      host.complain ("Error: " ++ path ++ ": " ++ e.message)
    return (document, removal.failure)
  | .get _ | .dump => none

def Host.finish : Document × Option Error → ExceptT Error m Unit
  | (document, failure) => do
    host.store i document
    match failure with
    | none => return ()
    | some e => throw e

theorem Host.storeEdited_eq [LawfulMonad m] (edited : Edited Document) :
    host.storeEdited i edited =
      (liftExcept (settled edited) >>= fun document => host.finish i (document, none)) := by
  unfold storeEdited settled
  cases edited.failure with
  | none => simp [liftExcept, finish]
  | some e =>
    refine ExceptT.ext ?_
    simp [liftExcept]

theorem Host.perform_eq_of_edit? [LawfulMonad m]
    {edit : ExceptT Error m (Document × Option Error)} (h : host.edit? i = some edit) :
    host.perform i = edit >>= host.finish i := by
  unfold edit? at h
  unfold perform
  cases haction : i.action with
  | set kind path value =>
    rw [haction] at h
    cases h
    simp [set, storeEdited_eq]
  | merge path value =>
    rw [haction] at h
    cases h
    simp [merge, storeEdited_eq]
  | remove paths =>
    rw [haction] at h
    cases h
    simp only [remove, bind_assoc, pure_bind]
    rfl
  | get | dump =>
    rw [haction] at h
    cases h

end

section

variable {σ : Type} {host : Host (StateM σ)} {view : View σ} {i : Invocation}
  {edit : ExceptT Error (StateM σ) (Document × Option Error)}

theorem Host.Lawful.complainAll (h : host.Lawful view) (failures : List (String × Error)) :
    view.Quiet (failures.forM fun (path, e) =>
      (host.complain ("Error: " ++ path ++ ": " ++ e.message) :
        ExceptT Error (StateM σ) PUnit)).run := by
  induction failures with
  | nil => exact .pure _
  | cons failure failures ih => exact .bind (.lift (h.complain _)) fun _ => ih

theorem Host.Lawful.edit? (h : host.Lawful view) (hedit : host.edit? i = some edit) :
    view.Quiet edit.run := by
  unfold Host.edit? at hedit
  split at hedit
  · cases hedit
    exact .bind (.liftExcept _) fun _ => .bind (.liftExcept _) fun _ => .bind (h.load i) fun _ =>
      .bind (h.valueText i _) fun _ => .bind (.liftExcept _) fun _ => .pure _
  · cases hedit
    exact .bind (.liftExcept _) fun _ => .bind (h.load i) fun _ =>
      .bind (h.valueText i _) fun _ => .bind (.liftExcept _) fun _ => .pure _
  · cases hedit
    exact .bind (h.load i) fun _ => .bind (.liftExcept _) fun _ =>
      .bind (h.complainAll _) fun _ => .pure _
  all_goals cases hedit

end

/-! ## Storing -/

theorem getLast?_write {document : Document} {format : Option Format}
    (h : document.formatFor format ≠ .messagePack) :
    (document.write format).getLast? = some 10 := by
  unfold Document.write
  simp only
  split
  · simp
  · next hlast => simpa [h] using hlast

section

variable {σ : Type} {host : Host (StateM σ)} {view : View σ}

/-- The host has failed to print the document and broken off after a part from its start. -/
def Host.BreaksOff (host : Host (StateM σ)) (view : View σ) (d : Destination) (document : Document)
    (before after : Scene view.File) : Prop :=
  let bytes := document.write d.format
  d.target? = none ∧
    (∃ s cause s', view.scene s = before ∧ (host.print bytes).run s = (.error cause, s') ∧
      view.scene s' = after) ∧
    ∃ shown, shown <+: bytes ∧ after = before.print shown

variable (h : host.Lawful view)
include h

/-- Storing delivers the document, or fails as writing does: with nothing changed, or with a part of
the document printed. -/
theorem Host.Lawful.store (i : Invocation) (document : Document) (s : σ) :
    match (host.store i document).run.run s with
    | (.ok (), s') => view.Delivered i.destination document (view.scene s) (view.scene s')
    | (.error e, s') => e.exitCode = 7 ∧ (view.scene s' = view.scene s ∨
        host.BreaksOff view i.destination document (view.scene s) (view.scene s')) := by
  unfold Host.store View.Delivered Host.BreaksOff
  cases i.destination.target? with
  | none =>
    have hprint := h.print (document.write i.destination.format) s
    simp only [Host.put, run_act]
    revert hprint
    generalize hanswer : (host.print (document.write i.destination.format)).run s = answer
    obtain ⟨⟨cause⟩ | ⟨⟩, s'⟩ := answer
    · exact fun hprint => ⟨rfl, .inr ⟨trivial, ⟨s, cause, s', rfl, hanswer, rfl⟩, hprint⟩⟩
    · exact fun hprint => ⟨getLast?_write, hprint⟩
  | some path =>
    have hreplace := h.replace path (document.write i.destination.format) s
    simp only [run_act]
    revert hreplace
    generalize (host.replace path (document.write i.destination.format)).run s = answer
    obtain ⟨⟨cause⟩ | ⟨⟩, s'⟩ := answer
    · exact fun hreplace => ⟨rfl, .inl hreplace⟩
    · exact fun hreplace => ⟨getLast?_write, hreplace⟩

theorem Host.Lawful.finish (i : Invocation) (document : Document) (failure : Option Error) (s : σ) :
    match (host.finish i (document, failure)).run.run s with
    | (.ok (), s') =>
      failure = none ∧ view.Delivered i.destination document (view.scene s) (view.scene s')
    | (.error e, s') =>
      (failure = some e ∧ view.Delivered i.destination document (view.scene s) (view.scene s')) ∨
        (e.exitCode = 7 ∧ (view.scene s' = view.scene s ∨
          host.BreaksOff view i.destination document (view.scene s) (view.scene s'))) := by
  have hstore := h.store i document s
  simp only [Host.finish, run_bind]
  revert hstore
  generalize (host.store i document).run.run s = answer
  obtain ⟨⟨e⟩ | ⟨⟩, s'⟩ := answer
  · exact fun hstore => .inr hstore
  · intro hstore
    cases failure with
    | none => exact ⟨rfl, hstore⟩
    | some e => exact .inl ⟨rfl, hstore⟩

theorem Host.Lawful.put (bytes : List UInt8) : view.Keeps Scene.files (host.put bytes).run := by
  intro s
  have hprint := h.print bytes s
  rw [Host.put, run_act]
  revert hprint
  generalize (host.print bytes).run s = answer
  obtain ⟨⟨e⟩ | ⟨⟩, s'⟩ := answer
  · exact fun ⟨_, _, hprint⟩ => (congrArg Scene.files hprint).trans (Scene.files_print ..)
  · exact fun hprint => (congrArg Scene.files hprint).trans (Scene.files_print ..)

theorem Host.Lawful.get (i : Invocation) (requests : List String) :
    view.Keeps Scene.files (host.get i requests).run := by
  refine .bind (h.load i).keeps fun document => ?_
  have hput (bytes : List UInt8) (result : Except Error Unit) :
      view.Keeps Scene.files (host.put bytes >>= fun _ => liftExcept result).run :=
    .bind (h.put bytes) fun _ => .liftExcept _
  simp only
  split
  · exact .bind (.lift (h.complain _).keeps) fun _ => hput _ _
  · exact hput _ _

theorem Host.Lawful.dump (i : Invocation) : view.Keeps Scene.files (host.dump i).run :=
  .bind (h.load i).keeps fun _ => h.put _

end

/-! ## Runs -/

/-- An edit of what `host` reads in a state yields a document to store, and what the run fails with
all the same. -/
def Host.Yields {σ : Type} (host : Host (StateM σ)) (i : Invocation) (s : σ) (document : Document)
    (failure : Option Error) : Prop :=
  ∃ edit, host.edit? i = some edit ∧ (edit.run.run s).1 = .ok (document, failure)

/-- How a run to edit comes out. -/
inductive Host.Outcome {σ : Type} (host : Host (StateM σ)) (view : View σ) (i : Invocation) (s : σ)
    (code : UInt8) (after : Scene view.File) : Prop
  /-- There is no document to store. -/
  | refused (hcode : code ≠ 0) (hno : ∀ document failure, ¬ host.Yields i s document failure)
      (hsame : after = view.scene s)
  /-- There is one, and storing it fails. -/
  | unwritten (document : Document) (failure : Option Error)
      (hyields : host.Yields i s document failure) (hcode : code = 7)
      (hpart : after = view.scene s ∨
        host.BreaksOff view i.destination document (view.scene s) after)
  /-- It is stored, and the run fails all the same if there was a failure to go on with. -/
  | delivered (document : Document) (failure : Option Error)
      (hyields : host.Yields i s document failure) (hcode : code = failure.elim 0 Error.exitCode)
      (hdelivered : view.Delivered i.destination document (view.scene s) after)

/-- Only removing goes on with a failure, that of the paths it could not remove. -/
theorem Host.Yields.failure_eq {σ : Type} {host : Host (StateM σ)} {i : Invocation} {s : σ}
    {document : Document} {failure : Option Error} (h : host.Yields i s document failure) :
    match i.action with
    | .set .. | .merge .. => failure = none
    | .remove _ => ∃ removal : Removal, failure = removal.failure
    | .get _ | .dump => False := by
  obtain ⟨edit, hedit, h⟩ := h
  unfold edit? at hedit
  split at hedit
  · cases hedit
    obtain ⟨_, _, h⟩ := exists_of_run_bind h
    obtain ⟨_, _, h⟩ := exists_of_run_bind h
    obtain ⟨_, _, h⟩ := exists_of_run_bind h
    obtain ⟨_, _, h⟩ := exists_of_run_bind h
    obtain ⟨_, _, h⟩ := exists_of_run_bind h
    cases h
    rfl
  · cases hedit
    obtain ⟨_, _, h⟩ := exists_of_run_bind h
    obtain ⟨_, _, h⟩ := exists_of_run_bind h
    obtain ⟨_, _, h⟩ := exists_of_run_bind h
    obtain ⟨_, _, h⟩ := exists_of_run_bind h
    cases h
    rfl
  · cases hedit
    obtain ⟨_, _, h⟩ := exists_of_run_bind h
    obtain ⟨removed, _, h⟩ := exists_of_run_bind h
    obtain ⟨_, _, h⟩ := exists_of_run_bind h
    cases h
    exact ⟨removed.2, rfl⟩
  all_goals cases hedit

section

variable {σ : Type} {host : Host (StateM σ)} {view : View σ} {words : List String} {i : Invocation}

theorem run_of_parse (hparse : Invocation.parse words = .ok i) (s : σ) :
    (host.run words).run s = match (host.perform i).run.run s with
      | (.ok (), s') => (0, s')
      | (.error e, s') => (e.exitCode, ((host.complain ("Error: " ++ e.message)).run s').2) := by
  unfold Host.run
  rw [hparse]
  simp only [StateT.run_bind]
  obtain ⟨⟨e⟩ | ⟨⟩, s'⟩ := (host.perform i).run.run s <;> rfl

theorem Host.Lawful.run (h : host.Lawful view) (hparse : Invocation.parse words = .ok i) (s : σ) :
    ((host.run words).run s).1 =
        (match ((host.perform i).run.run s).1 with | .ok () => 0 | .error e => e.exitCode) ∧
      view.scene ((host.run words).run s).2 = view.scene ((host.perform i).run.run s).2 := by
  rw [run_of_parse hparse]
  obtain ⟨⟨e⟩ | ⟨⟩, s'⟩ := (host.perform i).run.run s
  · exact ⟨rfl, h.complain _ s'⟩
  · exact ⟨rfl, rfl⟩

theorem Host.Lawful.run_of_edit (h : host.Lawful view) (hparse : Invocation.parse words = .ok i)
    {edit : ExceptT Error (StateM σ) (Document × Option Error)} (hedit : host.edit? i = some edit)
    (s : σ) :
    host.Outcome view i s ((host.run words).run s).1 (view.scene ((host.run words).run s).2) := by
  obtain ⟨hcode, hscene⟩ := h.run hparse s
  have hyields (document : Document) (failure : Option Error) :
      host.Yields i s document failure ↔ (edit.run.run s).1 = .ok (document, failure) := by
    simp [Yields, hedit]
  rw [hcode, hscene, Host.perform_eq_of_edit? host i hedit, run_bind]
  have hquiet := h.edit? hedit s
  revert hquiet hyields
  generalize edit.run.run s = answer
  obtain ⟨e | ⟨document, failure⟩, s₁⟩ := answer
  · intro hyields hquiet
    exact .refused e.exitCode_ne_zero (fun _ _ hy => by cases (hyields _ _).1 hy) hquiet
  · intro hyields hquiet
    have hy := (hyields document failure).2 rfl
    have hfinish := h.finish i document failure s₁
    rw [show view.scene s₁ = view.scene s from hquiet] at hfinish
    revert hfinish
    simp only
    generalize (host.finish i (document, failure)).run.run s₁ = answer
    obtain ⟨⟨e⟩ | ⟨⟩, s₂⟩ := answer
    · rintro (⟨rfl, hdelivered⟩ | ⟨hcode, hpart⟩)
      · exact .delivered document (some e) hy rfl hdelivered
      · exact .unwritten document failure hy hcode hpart
    · rintro ⟨rfl, hdelivered⟩
      exact .delivered document none hy rfl hdelivered

theorem Host.Yields.unique {s : σ} {document document' : Document} {failure failure' : Option Error}
    (h : host.Yields i s document failure) (h' : host.Yields i s document' failure') :
    document = document' ∧ failure = failure' := by
  obtain ⟨edit, hedit, hyields⟩ := h
  obtain ⟨edit', hedit', hyields'⟩ := h'
  cases Option.some.inj (hedit.symm.trans hedit')
  exact Prod.mk.inj (Except.ok.inj (hyields.symm.trans hyields'))

section

variable {s : σ} {code : UInt8} {after : Scene view.File}

/-- Without a failure to go on with, a run delivers its document exactly where it succeeds. -/
theorem Host.Outcome.of_whole (h : host.Outcome view i s code after)
    (hwhole : ∀ document failure, host.Yields i s document failure → failure = none) :
    (code ≠ 0 → after = view.scene s ∨ (code = 7 ∧ ∃ document, host.Yields i s document none ∧
      host.BreaksOff view i.destination document (view.scene s) after)) ∧
    (code = 0 → ∃ document, host.Yields i s document none ∧
      view.Delivered i.destination document (view.scene s) after) := by
  cases h with
  | refused hcode hno hsame => exact ⟨fun _ => .inl hsame, fun hzero => absurd hzero hcode⟩
  | unwritten document failure hy hcode hpart =>
    cases hwhole document failure hy
    exact ⟨fun _ => hpart.imp_right fun hpart => ⟨hcode, document, hy, hpart⟩,
      fun hzero => absurd (hzero.symm.trans hcode) (by decide)⟩
  | delivered document failure hy hcode hdelivered =>
    cases hwhole document failure hy
    exact ⟨fun hne => absurd hcode hne, fun _ => ⟨document, hy, hdelivered⟩⟩

/-- With a failure to go on with, a run delivers its document all the same. -/
theorem Host.Outcome.of_partial (h : host.Outcome view i s code after)
    (hpartial : ∀ document e, host.Yields i s document (some e) → e.exitCode = 1) :
    (code ≠ 0 → after = view.scene s ∨
      (code = 1 ∧ ∃ document e, host.Yields i s document (some e) ∧
        view.Delivered i.destination document (view.scene s) after) ∨
      (code = 7 ∧ ∃ document failure, host.Yields i s document failure ∧
        host.BreaksOff view i.destination document (view.scene s) after)) ∧
    (code = 0 → ∃ document, host.Yields i s document none ∧
      view.Delivered i.destination document (view.scene s) after) ∧
    ∀ document e, host.Yields i s document (some e) →
      (code = 1 ∧ view.Delivered i.destination document (view.scene s) after) ∨
        (code = 7 ∧ (after = view.scene s ∨
          host.BreaksOff view i.destination document (view.scene s) after)) := by
  cases h with
  | refused hcode hno hsame =>
    exact ⟨fun _ => .inl hsame, fun hzero => absurd hzero hcode,
      fun document e hy => absurd hy (hno document (some e))⟩
  | unwritten document failure hy hcode hpart =>
    refine ⟨fun _ => hpart.imp_right fun hpart => .inr ⟨hcode, document, failure, hy, hpart⟩,
      fun hzero => absurd (hzero.symm.trans hcode) (by decide), fun document' e' hy' => ?_⟩
    obtain ⟨rfl, -⟩ := hy.unique hy'
    exact .inr ⟨hcode, hpart⟩
  | delivered document failure hy hcode hdelivered =>
    cases failure with
    | none =>
      refine ⟨fun hne => absurd hcode hne, fun _ => ⟨document, hy, hdelivered⟩,
        fun document' e' hy' => ?_⟩
      cases (hy.unique hy').2
    | some e =>
      have hone := hcode.trans (hpartial document e hy)
      refine ⟨fun _ => .inr (.inl ⟨hone, document, e, hy, hdelivered⟩),
        fun hzero => absurd (hzero.symm.trans hone) (by decide), fun document' e' hy' => ?_⟩
      obtain ⟨rfl, -⟩ := hy.unique hy'
      exact .inl ⟨hone, hdelivered⟩

end

end

/-- A run to set or merge that fails has written nothing, and one that succeeds has written the
edited document to one place.  So it is with removing, except that the document is also written when
some paths could not be removed, for which the run fails with 1 in the end.  Only where the host
itself fails to print the document, and the run fails with 7, a part of it may have been printed.
Asking for something writes no file. -/
theorem runs_write_once_or_not_at_all {σ : Type} {host : Host (StateM σ)} {view : View σ}
    (h : host.Lawful view) {words : List String} {i : Invocation}
    (hparse : Invocation.parse words = .ok i) (s : σ) :
    let code := ((host.run words).run s).1
    let before := view.scene s
    let after := view.scene ((host.run words).run s).2
    match i.action with
    | .set .. | .merge .. =>
      (code ≠ 0 → after = before ∨ (code = 7 ∧ ∃ document, host.Yields i s document none ∧
        host.BreaksOff view i.destination document before after)) ∧
      (code = 0 → ∃ document, host.Yields i s document none ∧
        view.Delivered i.destination document before after)
    | .remove _ =>
      (code ≠ 0 → after = before ∨
        (code = 1 ∧ ∃ document e, host.Yields i s document (some e) ∧
          view.Delivered i.destination document before after) ∨
        (code = 7 ∧ ∃ document failure, host.Yields i s document failure ∧
          host.BreaksOff view i.destination document before after)) ∧
      (code = 0 → ∃ document, host.Yields i s document none ∧
        view.Delivered i.destination document before after) ∧
      ∀ document e, host.Yields i s document (some e) →
        (code = 1 ∧ view.Delivered i.destination document before after) ∨
          (code = 7 ∧ (after = before ∨
            host.BreaksOff view i.destination document before after))
    | .get _ | .dump => after.files = before.files := by
  intro code before after
  split
  · next haction =>
    have houtcome := h.run_of_edit hparse (by rw [Host.edit?, haction]) s
    refine houtcome.of_whole fun document failure hy => ?_
    simpa only [haction] using hy.failure_eq
  · next haction =>
    have houtcome := h.run_of_edit hparse (by rw [Host.edit?, haction]) s
    refine houtcome.of_whole fun document failure hy => ?_
    simpa only [haction] using hy.failure_eq
  · next haction =>
    have houtcome := h.run_of_edit hparse (by rw [Host.edit?, haction]) s
    refine houtcome.of_partial fun document e hy => ?_
    obtain ⟨removal, hremoval⟩ : ∃ removal : Removal, some e = removal.failure := by
      simpa only [haction] using hy.failure_eq
    exact Removal.exitCode_failure hremoval.symm
  · next requests haction =>
    have hperform : host.perform i = host.get i requests := by rw [Host.perform, haction]
    rw [show after = _ from (h.run hparse s).2, hperform]
    exact h.get i requests s
  · next haction =>
    have hperform : host.perform i = host.dump i := by rw [Host.perform, haction]
    rw [show after = _ from (h.run hparse s).2, hperform]
    exact h.dump i s

/-- A member that is set is in its file afterwards; below a scalar nothing can be set, and the file
stays; of a document that is printed there may be no more than there is room for. -/
theorem runs_write_once_or_not_at_all_in_memory :
    let w : World := ⟨[("a.yaml", Text.bytes "x: 1".toList), ("b", [1])], [], [], [], some 2⟩
    let words (path : String) := ["set", "-f", "a.yaml", path, "2"]
    let shown := ["set", "-f", "a.yaml", "--noop", "x", "2"]
    let i (path : String) (noop : Bool) : Invocation :=
      { action := .set none (some path) (some "2"), reading := ⟨false, true, 128⟩,
        query := default, input := none, destination := ⟨some "a.yaml", none, none, noop⟩ }
    (Invocation.parse (words "x") = .ok (i "x" false) ∧ (w.run (words "x")).1 = 0 ∧
      ∃ document, World.host.Yields (i "x" false) w document none ∧
        World.view.Delivered (i "x" false).destination document (World.view.scene w)
          (World.view.scene (w.run (words "x")).2)) ∧
    (Invocation.parse (words "x.y") = .ok (i "x.y" false) ∧ (w.run (words "x.y")).1 = 1 ∧
      World.view.scene (w.run (words "x.y")).2 = World.view.scene w) ∧
    (Invocation.parse shown = .ok (i "x" true) ∧ (w.run shown).1 = 7 ∧
      (w.run shown).2.output = Text.bytes "x:".toList ∧
      ∃ document, World.host.Yields (i "x" true) w document none ∧
        World.host.BreaksOff World.view (i "x" true).destination document (World.view.scene w)
          (World.view.scene (w.run shown).2)) := by
  intro w words shown i
  have hmember : Invocation.parse (words "x") = .ok (i "x" false) := by rfl
  have hbelow : Invocation.parse (words "x.y") = .ok (i "x.y" false) := by rfl
  have hshown : Invocation.parse shown = .ok (i "x" true) := by rfl
  have hdone : (w.run (words "x")).1 = 0 := by decide +kernel
  have hfailed : (w.run (words "x.y")).1 = 1 := by decide +kernel
  have hfull : (w.run shown).1 = 7 := by decide +kernel
  have houtput : (w.run shown).2.output = Text.bytes "x:".toList := by decide +kernel
  have hdelivered := (runs_write_once_or_not_at_all World.lawful_host hmember w).2 hdone
  have hfailed' : (w.run (words "x.y")).1 ≠ 0 := by rw [hfailed]; decide
  have hfull' : (w.run shown).1 ≠ 0 := by rw [hfull]; decide
  have hsame : World.view.scene (w.run (words "x.y")).2 = World.view.scene w := by
    rcases (runs_write_once_or_not_at_all World.lawful_host hbelow w).1 hfailed' with
      hsame | ⟨hcode, -⟩
    · exact hsame
    · exact absurd (hfailed.symm.trans hcode) (by decide)
  have hpart : ∃ document, World.host.Yields (i "x" true) w document none ∧
      World.host.BreaksOff World.view (i "x" true).destination document (World.view.scene w)
        (World.view.scene (w.run shown).2) := by
    rcases (runs_write_once_or_not_at_all World.lawful_host hshown w).1 hfull' with
      hsame | ⟨-, hpart⟩
    · have hnone : (w.run shown).2.output = [] := congrArg Scene.output hsame
      rw [houtput] at hnone
      exact absurd hnone (by decide)
    · exact hpart
  exact ⟨⟨hmember, hdone, hdelivered⟩, ⟨hbelow, hfailed, hsame⟩, hshown, hfull, houtput, hpart⟩

end ConfigTree.CommandLine
