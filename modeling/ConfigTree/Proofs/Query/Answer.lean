import ConfigTree.Query.Output

/-! A request that is a path alone puts out what the path leads to, in one record. -/

namespace ConfigTree

variable {path : String}

/-- A line without a bar is a path, which may have blanks around it. -/
theorem Request.parse_of_not_mem {line : String} (hbar : '|' ∉ line.toList) (d : Char) :
    parse d line = .ok ⟨String.ofList (Text.trim line.toList), []⟩ := by
  have htokens : tokens line = [line] := by
    rw [tokens, List.splitOn_eq_singleton hbar, List.map_singleton, String.ofList_toList]
  rw [parse, htokens]
  rfl

theorem Request.parse_path (hbar : '|' ∉ path.toList) (htrim : Text.trim path.toList = path.toList)
    (d : Char) : parse d path = .ok ⟨path, []⟩ := by
  rw [parse_of_not_mem hbar, htrim, String.ofList_toList]

namespace Query

variable {o : Options} {root : Node}

theorem parseAll_path (hbar : '|' ∉ path.toList) (htrim : Text.trim path.toList = path.toList) :
    parseAll o [path] = .ok [⟨path, []⟩] := by
  simp only [parseAll, List.isEmpty_cons, Bool.false_eq_true, if_false, List.mapM_cons,
    Request.parse_path hbar htrim, List.mapM_nil]
  rfl

/-- What a tree looks like as a record of its own, without a label. -/
def recordBytes (o : Options) (n : Node) : List UInt8 :=
  let content := n.render o.format
  content ++ if o.format == .messagePack || content.getLast? == some 10 then [] else [10]

theorem answer_path (hbar : '|' ∉ path.toList) (htrim : Text.trim path.toList = path.toList)
    (hformat : o.format.isStructured = true) (hkeys : o.showKeys = false)
    (hnewline : o.noNewline = false) :
    answer o root [path] =
      ⟨recordBytes o ((root.lookup? o.inputDelimiter path).getD .null), false, .ok ()⟩ := by
  have hrun : [(⟨path, []⟩ : Request)].forM (run o root) =
      Trace.put (.node (root.lookup? o.inputDelimiter path) "" path) := rfl
  have hlabel : o.labelText "" path = [] := by rw [Options.labelText, hkeys]; rfl
  rw [answer, parseAll_path hbar htrim]
  simp only [hrun, Trace.put, Trace.answer, Options.writeAll, Options.write, hformat, if_true,
    Options.frame, hlabel, hnewline, Options.runsTogether, Options.finish, recordBytes,
    Options.newline, Bool.false_and, Bool.false_or, Bool.false_eq_true, if_false, List.append_nil,
    Text.bytes_nil, List.nil_append]
  rfl

end Query

end ConfigTree
