import ConfigTree.CommandLine.World

/-! What is seen of a host: its files and what it has printed.  A lawful host writes a file in full
or not at all, prints in full or fails after a part, and does nothing else that is seen; the host in
memory is one. -/

namespace ConfigTree.CommandLine

/-! ## What is seen of a host -/

/-- The files and what has been printed. -/
structure Scene (File : Type) where
  files : File → Option (List UInt8)
  output : List UInt8

namespace Scene

variable {File : Type}

def put [DecidableEq File] (scene : Scene File) (file : File) (bytes : List UInt8) : Scene File :=
  { scene with files := fun other => if other = file then some bytes else scene.files other }

def print (scene : Scene File) (bytes : List UInt8) : Scene File :=
  { scene with output := scene.output ++ bytes }

@[simp] theorem files_print (scene : Scene File) (bytes : List UInt8) :
    (scene.print bytes).files = scene.files := rfl

end Scene

/-- How the states of a host are seen, and which file a path stands for. -/
structure View (σ : Type) where
  File : Type
  [decidableEq : DecidableEq File]
  fileAt? : String → Option File
  scene : σ → Scene File

attribute [instance] View.decidableEq

namespace View

variable {σ : Type} (view : View σ)

/-- An act leaves a part of what is seen as it was. -/
def Keeps {α γ : Type} (part : Scene view.File → γ) (act : StateM σ α) : Prop :=
  ∀ s, part (view.scene (act.run s).2) = part (view.scene s)

/-- Nothing is seen of an act. -/
def Quiet {α : Type} (act : StateM σ α) : Prop := view.Keeps id act

/-- The document has gone where it is to be written, in full, and nowhere else.  Unless it is binary
it ends in a newline. -/
def Delivered (d : Destination) (document : Document) (before after : Scene view.File) : Prop :=
  let bytes := document.write d.format
  (document.formatFor d.format ≠ .messagePack → bytes.getLast? = some 10) ∧
    match d.target? with
    | none => after = before.print bytes
    | some path => ∃ file, view.fileAt? path = some file ∧ after = before.put file bytes

end View

/-- Reading and complaining are not seen.  A file is written in full, or the host answers that it
failed and nothing has changed.  What is printed is printed in full, or the host answers that it
failed, and a part from the start may have been printed by then. -/
structure Host.Lawful {σ : Type} (host : Host (StateM σ)) (view : View σ) : Prop where
  isInteractive : view.Quiet host.isInteractive
  input : view.Quiet host.input
  file : ∀ path, view.Quiet (host.file path)
  complain : ∀ line, view.Quiet (host.complain line)
  replace : ∀ (path : String) (bytes : List UInt8) (s : σ),
    match (host.replace path bytes).run s with
    | (.ok (), s') =>
      ∃ file, view.fileAt? path = some file ∧ view.scene s' = (view.scene s).put file bytes
    | (.error _, s') => view.scene s' = view.scene s
  print : ∀ (bytes : List UInt8) (s : σ),
    match (host.print bytes).run s with
    | (.ok (), s') => view.scene s' = (view.scene s).print bytes
    | (.error _, s') => ∃ shown, shown <+: bytes ∧ view.scene s' = (view.scene s).print shown

/-! ## Acts one after the other -/

section

variable {σ α β γ : Type} {view : View σ} {part : Scene view.File → γ}

theorem run_bind (act : ExceptT Error (StateM σ) α) (next : α → ExceptT Error (StateM σ) β) (s : σ) :
    (act >>= next).run.run s = match act.run.run s with
      | (.ok a, s') => (next a).run.run s'
      | (.error e, s') => (.error e, s') := by
  rw [ExceptT.run_bind, StateT.run_bind]
  obtain ⟨answer, s'⟩ := act.run.run s
  cases answer <;> rfl

theorem exists_of_run_bind {act : ExceptT Error (StateM σ) α}
    {next : α → ExceptT Error (StateM σ) β} {s : σ} {b : β}
    (h : ((act >>= next).run.run s).1 = .ok b) : ∃ a s', ((next a).run.run s').1 = .ok b := by
  rw [run_bind] at h
  split at h
  · next a s' _ => exact ⟨a, s', h⟩
  · cases h

theorem run_act (answer : StateM σ (Except String α)) (error : String → Error) (s : σ) :
    (Host.act answer error).run.run s = ((answer.run s).1.mapError error, (answer.run s).2) := rfl

namespace View.Keeps

theorem pure (a : α) : view.Keeps part (pure a : ExceptT Error (StateM σ) α).run := fun _ => rfl

theorem bind {act : ExceptT Error (StateM σ) α} {next : α → ExceptT Error (StateM σ) β}
    (hact : view.Keeps part act.run) (hnext : ∀ a, view.Keeps part (next a).run) :
    view.Keeps part (act >>= next).run := by
  intro s
  have h := hact s
  rw [run_bind]
  split
  · next a s' hs =>
    rw [hs] at h
    exact (hnext a s').trans h
  · next e s' hs =>
    rw [hs] at h
    exact h

theorem throw (e : Error) : view.Keeps part (throw e : ExceptT Error (StateM σ) α).run := fun _ => rfl

theorem liftExcept (x : Except Error α) :
    view.Keeps part (liftExcept x : ExceptT Error (StateM σ) α).run := by
  cases x <;> exact fun _ => rfl

theorem lift {act : StateM σ α} (h : view.Keeps part act) :
    view.Keeps part (act : ExceptT Error (StateM σ) α).run := h

theorem act {answer : StateM σ (Except String α)} (h : view.Keeps part answer)
    (error : String → Error) : view.Keeps part (Host.act answer error).run := h

end View.Keeps

end

/-! ## The host in memory -/

namespace World

/-- Names that do not depend on the files stand for the entries of the one directory. -/
def view : View World where
  File := String
  fileAt? path := (resolve ⟨[], [], [], [], none⟩ path).toOption
  scene w := ⟨w.content?, w.output⟩

variable {w w' : World} {path name : String}

theorem resolve_eq_ok (h : w.resolve path = .ok name) : w'.resolve path = .ok name := by
  unfold resolve at h ⊢
  simp only at h ⊢
  split at h
  · cases h
  · next hslash =>
    rw [if_neg hslash]
    split at h
    · cases h
    · next first rest hparts =>
      split at h
      · next hlast =>
        cases h
        exact if_pos hlast
      · cases h

theorem lookup_files_of_ne {es : List (String × List UInt8)} {other : String} (h : other ≠ name) :
    (es.filter (·.1 != name)).lookup other = es.lookup other := by
  induction es with
  | nil => rfl
  | cons e es ih =>
    rw [List.lookup_cons, List.filter_cons]
    by_cases he : e.1 = name
    · have hne : (other == e.1) = false := by simpa [he] using h
      rw [hne, if_neg (by simpa using he)]
      exact ih
    · rw [if_pos (by simpa using he), List.lookup_cons, ih]

theorem content?_put (w : World) (name : String) (bytes : List UInt8) :
    (w.put name bytes).content? =
      fun other => if other = name then some bytes else w.content? other := by
  funext other
  rw [put, content?, List.lookup_cons]
  by_cases h : other = name
  · rw [if_pos h, h, beq_self_eq_true]
  · have hne : (other == name) = false := by simpa using h
    rw [if_neg h, hne]
    exact lookup_files_of_ne h

theorem lawful_host : host.Lawful view where
  isInteractive _ := rfl
  input _ := rfl
  file _ _ := rfl
  complain _ _ := rfl
  replace path bytes w := by
    have hrun : (host.replace path bytes).run w = w.replace path bytes := rfl
    rw [hrun, replace]
    cases hname : w.resolve path with
    | error cause => rfl
    | ok name =>
      refine ⟨name, ?_, congrArg (Scene.mk · w.output) (content?_put w name bytes)⟩
      have hok : resolve ⟨[], [], [], [], none⟩ path = .ok name := resolve_eq_ok hname
      exact congrArg Except.toOption hok
  print bytes w := by
    have hrun : (host.print bytes).run w = w.print bytes := rfl
    rw [hrun, print]
    cases w.room with
    | none => rfl
    | some room =>
      by_cases hfits : bytes.length ≤ room
      · simp only [if_pos hfits, List.take_of_length_le hfits]
        rfl
      · simp only [if_neg hfits]
        exact ⟨bytes.take room, List.take_prefix room bytes, rfl⟩

end World

end ConfigTree.CommandLine
