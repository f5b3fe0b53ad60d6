import ConfigTree.Proofs.MessagePack.Records
import ConfigTree.Proofs.MessagePack.Sequence
import ConfigTree.Proofs.Query.Answer
import ConfigTree.Proofs.Query.Layout

/-! What paths put out in MessagePack: their nodes, one value after the other.  Where records are set
apart by spaces, the space between two records and the newline behind the last are values as well, the
numbers 32 and 10. -/

namespace ConfigTree

theorem flatMap_intersperse {α β : Type} (f : α → List β) (separator : α) (as : List α) :
    (as.intersperse separator).flatMap f = (f separator).intercalate (as.map f) := by
  induction as with
  | nil => rfl
  | cons a as ih =>
    cases as with
    | nil => simp
    | cons b bs => simpa using congrArg (f a ++ f separator ++ ·) ih

theorem intercalate_nil {α : Type} (as : List (List α)) : [].intercalate as = as.flatten := by
  cases as with
  | nil => rfl
  | cons a as => simp [Query.intercalate_cons]

theorem mem_of_mem_intersperse {α : Type} {a separator : α} {as : List α}
    (h : a ∈ as.intersperse separator) : a = separator ∨ a ∈ as := by
  induction as with
  | nil => cases h
  | cons b bs ih =>
    cases bs with
    | nil => exact .inr h
    | cons c cs =>
      simp only [List.intersperse_cons_cons, List.mem_cons] at h ih ⊢
      tauto

namespace Query

open MessagePack (encode Encodable Reads)

variable {o : Options} {root : Node} {lines : List String}

/-! ## Paths -/

/-- The record of a line that is a path. -/
def pathRecord (o : Options) (root : Node) (line : String) : Record :=
  let path := String.ofList (Text.trim line.toList)
  .node (root.lookup? o.inputDelimiter path) "" path

/-- The value of the node that a line leads to; where there is none, it is null. -/
def pathValue (o : Options) (root : Node) (line : String) : Value :=
  ((root.lookup? o.inputDelimiter (String.ofList (Text.trim line.toList))).getD .null).toValue

theorem answer_paths (hlines : lines ≠ []) (hpaths : ∀ line ∈ lines, '|' ∉ line.toList) :
    answer o root lines = Trace.answer o ⟨lines.map (pathRecord o root), .ok ()⟩ := by
  have hparse : parseAll o lines =
      .ok (lines.map fun line => ⟨String.ofList (Text.trim line.toList), []⟩) := by
    rw [parseAll, if_neg (by simpa using hlines)]
    refine mapM_of_map ?_
    rw [List.map_map]
    exact List.map_congr_left fun line hline => Request.parse_of_not_mem (hpaths line hline) _
  have hrun (lines : List String) :
      (lines.map fun line => (⟨String.ofList (Text.trim line.toList), []⟩ : Request)).forM
        (run o root) = ⟨lines.map (pathRecord o root), .ok ()⟩ := by
    induction lines with
    | nil => rfl
    | cons line lines ih =>
      rw [List.map_cons, List.forM_eq_forM, List.forM_cons]
      exact congrArg (run o root _ >>= fun _ => ·) ih
  rw [answer, hparse]
  simp only [hrun]

/-! ## Bytes -/

/-- What stands between two records. -/
def Options.separator (o : Options) : List UInt8 := if o.noNewline then [32] else []

section

variable (hformat : o.format = .messagePack) (hkeys : o.showKeys = false)
include hformat hkeys

theorem write_pathRecord (root : Node) (s : Output) (line : String) :
    (o.write s (pathRecord o root line)).1 =
        (if s.started then o.separator else []) ++ encode (pathValue o root line) ∧
      (o.write s (pathRecord o root line)).2.started = true := by
  have hlabel (path key : String) : o.labelText path key = [] := by
    rw [Options.labelText, hkeys]
    rfl
  have hframe (path key : String) (content : List UInt8) :
      o.frame s path key content true = (if s.started then o.separator else []) ++ content := by
    have hspace : Text.bytes [' '] = [32] := rfl
    rw [Options.frame, hlabel, Options.separator]
    cases s.started <;> cases o.noNewline <;> simp [hspace]
  simp only [pathRecord, Options.write, hformat, Format.isStructured, beq_self_eq_true,
    Bool.true_or, hframe]
  exact ⟨rfl, rfl⟩

theorem writeAll_pathRecords (root : Node) (s : Output) (hs : s.started = true)
    (lines : List String) :
    (o.writeAll s (lines.map (pathRecord o root))).1 =
        (lines.map fun line => encode (pathValue o root line)).flatMap (o.separator ++ ·) ∧
      (o.writeAll s (lines.map (pathRecord o root))).2.started = true := by
  induction lines generalizing s with
  | nil => exact ⟨rfl, hs⟩
  | cons line lines ih =>
    obtain ⟨hbytes, hstarted⟩ := write_pathRecord hformat hkeys root s line
    obtain ⟨hmore, hend⟩ := ih _ hstarted
    rw [List.map_cons, List.map_cons, List.flatMap_cons, ← hmore]
    rw [hs, if_pos rfl] at hbytes
    exact ⟨congrArg (· ++ _) hbytes, hend⟩

theorem answer_bytes (hlines : lines ≠ []) (hpaths : ∀ line ∈ lines, '|' ∉ line.toList) :
    (answer o root lines).bytes =
      o.separator.intercalate ((lines.map (pathValue o root)).map encode) ++
        if o.noNewline then [10] else [] := by
  obtain ⟨line, lines, rfl⟩ := List.exists_cons_of_ne_nil hlines
  obtain ⟨hbytes, hstarted⟩ := write_pathRecord hformat hkeys root .start line
  obtain ⟨hmore, hend⟩ := writeAll_pathRecords hformat hkeys root _ hstarted lines
  rw [if_neg (by simp [Output.start]), List.nil_append] at hbytes
  rw [answer_paths hlines hpaths]
  simp only [Trace.answer, List.map_cons, Options.writeAll, Options.finish, hbytes, hmore, hend,
    Options.newline, intercalate_cons, List.map_map, Function.comp_def, Bool.and_true,
    List.append_assoc]

theorem reads_answer_spaced (hlines : lines ≠ []) (hpaths : ∀ line ∈ lines, '|' ∉ line.toList)
    (hspaced : o.noNewline = true) (h : ∀ v ∈ lines.map (pathValue o root), Encodable v) :
    Reads (answer o root lines).bytes
      ((lines.map (pathValue o root)).intersperse (.int 32) ++ [.int 10]) := by
  have hbytes : (answer o root lines).bytes =
      ((lines.map (pathValue o root)).intersperse (.int 32) ++ [Value.int 10]).flatMap encode := by
    rw [answer_bytes hformat hkeys hlines hpaths, Options.separator, hspaced, if_pos rfl,
      if_pos rfl, List.flatMap_append, flatMap_intersperse]
    rfl
  rw [hbytes]
  refine MessagePack.reads_flatMap fun v hv => ?_
  rcases List.mem_append.1 hv with hv | hv
  · rcases mem_of_mem_intersperse hv with rfl | hv
    · exact MessagePack.encodable_int 32
    · exact h v hv
  · cases List.mem_singleton.1 hv
    exact MessagePack.encodable_int 10

end

/-- The answer to paths is one value for each, the node it leads to, and nothing else, just where
records are not set apart by spaces and each length in the nodes has a form.  Where they are, the
spaces and the newline at the end are read as values of their own. -/
theorem answer_reads_as_values_iff (hlines : lines ≠ [])
    (hpaths : ∀ line ∈ lines, '|' ∉ line.toList) (hformat : o.format = .messagePack)
    (hkeys : o.showKeys = false) :
    let values := lines.map (pathValue o root)
    (answer o root lines).result = .ok () ∧
    ((∀ vs, Reads (answer o root lines).bytes vs ↔ vs = values) ↔
      o.noNewline = false ∧ ∀ v ∈ values, Encodable v) ∧
    (o.noNewline = true → (∀ v ∈ values, Encodable v) →
      ∀ vs, Reads (answer o root lines).bytes vs ↔
        vs = values.intersperse (.int 32) ++ [.int 10]) := by
  intro values
  have hspaced (hn : o.noNewline = true) (h : ∀ v ∈ values, Encodable v) (vs : List Value) :
      Reads (answer o root lines).bytes vs ↔ vs = values.intersperse (.int 32) ++ [.int 10] := by
    have hreads := reads_answer_spaced hformat hkeys hlines hpaths hn h
    exact ⟨fun hvs => hvs.unique hreads, fun hvs => hvs ▸ hreads⟩
  refine ⟨by rw [answer_paths hlines hpaths]; rfl, ⟨fun h => ?_, fun ⟨hn, h⟩ vs => ?_⟩, hspaced⟩
  · have hreads := (h values).2 rfl
    refine ⟨?_, hreads.encodable⟩
    cases hn : o.noNewline with
    | false => rfl
    | true =>
      -- With the spaces and the newline there are twice as many values.
      have hlength := congrArg List.length ((hspaced hn hreads.encodable values).1 hreads)
      have hpos := List.length_pos_iff.2 hlines
      rw [List.length_append, List.length_intersperse, List.length_map, List.length_singleton]
        at hlength
      omega
  · have hbytes : (answer o root lines).bytes = values.flatMap encode := by
      rw [answer_bytes hformat hkeys hlines hpaths, Options.separator, hn, if_neg Bool.false_ne_true,
        if_neg Bool.false_ne_true, intercalate_nil, List.append_nil]
      exact List.flatMap_def.symm
    rw [hbytes]
    have hreads := MessagePack.reads_flatMap h
    exact ⟨fun hvs => hvs.unique hreads, fun hvs => hvs ▸ hreads⟩

/-- Two paths, the second to an array: two values, or five with what sets them apart. -/
theorem answer_reads_as_values_iff_of_two_paths :
    let root : Node := .object ⟨[("a", .single (.int 1)), ("b", .single (.array [.bool true]))]⟩
    let o (spaced : Bool) : Options :=
      { (default : Options) with format := .messagePack, noNewline := spaced }
    (∀ line ∈ [".a", " .b "], '|' ∉ line.toList) ∧
    (∀ vs, Reads (answer (o false) root [".a", " .b "]).bytes vs ↔
      vs = [.int 1, .seq [.bool true]]) ∧
    ∀ vs, Reads (answer (o true) root [".a", " .b "]).bytes vs ↔
      vs = [.int 1, .int 32, .seq [.bool true], .int 10] := by
  intro root o
  have hpaths : ∀ line ∈ [".a", " .b "], '|' ∉ line.toList := by decide
  have hvalues (spaced : Bool) : [".a", " .b "].map (pathValue (o spaced) root) =
      [.int 1, .seq [.bool true]] := rfl
  have h : ∀ v ∈ [Value.int 1, .seq [.bool true]], Encodable v := by
    have hleaf : Encodable (.bool true) := MessagePack.encodable_of_leaf trivial rfl rfl
    have hseq : Encodable (.seq [.bool true]) :=
      MessagePack.encodable_seq (by decide) (List.forall_mem_singleton.2 hleaf)
    simp [hseq, MessagePack.encodable_int]
  obtain ⟨-, hended, -⟩ := @answer_reads_as_values_iff (o false) root _
    (List.cons_ne_nil _ _) hpaths rfl rfl
  obtain ⟨-, -, hspaced⟩ := @answer_reads_as_values_iff (o true) root _
    (List.cons_ne_nil _ _) hpaths rfl rfl
  rw [hvalues] at hended hspaced
  exact ⟨hpaths, hended.2 ⟨rfl, h⟩, hspaced rfl h⟩

/-- One path in the mode with spaces: behind the number 1 stands a newline, which is read as the
number 10. -/
theorem spaced_answer_has_spare_value :
    let root : Node := .object ⟨[("a", .single (.int 1))]⟩
    let o : Options := { (default : Options) with format := .messagePack, noNewline := true }
    (∀ line ∈ ["a"], '|' ∉ line.toList) ∧ (answer o root ["a"]).bytes = [1, 10] ∧
    (answer o root ["a"]).bytes ≠ (root.lookup? '.' "a").elim [] (Node.render · .messagePack) ∧
    ¬ Reads (answer o root ["a"]).bytes (["a"].map (pathValue o root)) := by
  intro root o
  have hbytes : (answer o root ["a"]).bytes = [1, 10] := by decide
  have hreads : Reads [1, 10] [.int 1, .int 10] := ⟨0, rfl⟩
  refine ⟨by decide, hbytes, by rw [hbytes]; decide, fun h => ?_⟩
  rw [hbytes] at h
  have hvalues : ["a"].map (pathValue o root) = [.int 1] := rfl
  cases hvalues.symm.trans (h.unique hreads)

end Query

end ConfigTree
