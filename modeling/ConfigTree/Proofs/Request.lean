import ConfigTree.Proofs.Path
import ConfigTree.Proofs.Text.Blank
import ConfigTree.Request

/-! Requests as they are written and read.  A request that is read, printed and read again is the
same request, whatever the delimiter.  Of the sub-paths of a token only the first is looked at, so
the others start with the delimiter just where no other character follows a space. -/

namespace ConfigTree

theorem map_of_mapM {α β ε : Type} {f : α → Except ε β} {as : List α} {bs : List β}
    (h : as.mapM f = .ok bs) : as.map f = bs.map .ok := by
  induction as generalizing bs with
  | nil =>
    cases h
    rfl
  | cons a as ih =>
    rw [List.mapM_cons] at h
    cases ha : f a with
    | error e =>
      rw [ha] at h
      cases h
    | ok b =>
      rw [ha] at h
      cases has : as.mapM f with
      | error e =>
        rw [has] at h
        cases h
      | ok bs' =>
        rw [has] at h
        cases h
        rw [List.map_cons, List.map_cons, ha, ih has]

theorem mapM_of_map {α β ε : Type} {f : α → Except ε β} {as : List α} {bs : List β}
    (h : as.map f = bs.map .ok) : as.mapM f = .ok bs := by
  induction as generalizing bs with
  | nil =>
    cases bs with
    | nil => rfl
    | cons b bs => cases h
  | cons a as ih =>
    cases bs with
    | nil => cases h
    | cons b bs =>
      obtain ⟨ha, has⟩ := List.cons.inj h
      rw [List.mapM_cons, ha, ih has]
      rfl

theorem exists_of_mem_intercalate {α : Type} {a : α} {separator : List α} {ps : List (List α)}
    (h : a ∈ separator.intercalate ps) : a ∈ separator ∨ ∃ p ∈ ps, a ∈ p := by
  induction ps with
  | nil => cases h
  | cons p ps ih =>
    by_cases hps : ps = []
    · rw [hps, List.intercalate_singleton] at h
      exact .inr ⟨p, List.mem_cons_self, h⟩
    · rw [List.intercalate_cons_of_ne_nil hps, List.mem_append, List.mem_append] at h
      rcases h with (h | h) | h
      · exact .inr ⟨p, List.mem_cons_self, h⟩
      · exact .inl h
      · exact (ih h).imp_right fun ⟨q, hq, hmem⟩ => ⟨q, List.mem_cons_of_mem _ hq, hmem⟩

namespace Command

variable {d : Char} {token : String} {command : Command}

theorem text_of_verb? {s : String} (h : verb? s = some command) :
    command.text = s ∧ ' ' ∉ s.toList := by
  unfold verb? at h
  split at h <;> cases h <;> exact ⟨rfl, by decide⟩

/-- A token is a verb, or sub-paths if it starts with the delimiter. -/
theorem parse_eq_ok_iff : parse d token = .ok command ↔
    verb? (String.ofList (Text.trim token.toList)) = some command ∨
      verb? (String.ofList (Text.trim token.toList)) = none ∧
        (Text.trim token.toList).head? = some d ∧
          select (subPaths (Text.trim token.toList)) = command := by
  rw [parse]
  cases hverb : verb? (String.ofList (Text.trim token.toList)) with
  | some verb => simp
  | none =>
    by_cases hd : (Text.trim token.toList).head? = some d
    · simp [hd]
    · simp [hd]

theorem parse_of_not_led (hverb : verb? (String.ofList (Text.trim token.toList)) = none)
    (hd : (Text.trim token.toList).head? ≠ some d) :
    parse d token = .error (.invalidCommand (String.ofList (Text.trim token.toList))) := by
  rw [parse]
  simp only [hverb, if_neg hd]

theorem subPaths_eq (s : List Char) : subPaths s = (Path.pieces ' ' s).map String.ofList := rfl

/-! ## Sub-paths -/

/-- Sub-paths as a token should hold them. -/
structure AreSubPaths (d : Char) (paths : List String) : Prop where
  nonempty : paths ≠ []
  led : ∀ p ∈ paths, p ≠ "" ∧ ' ' ∉ p.toList ∧ p.toList.head? = some d

/-- Every piece of the token is looked at: what it selects are sub-paths, and it is refused for a
piece that is none. -/
structure IsVetted (d : Char) (token : String) : Prop where
  selected : ∀ paths, parse d token = .ok (select paths) → AreSubPaths d paths
  refused : verb? (String.ofList (Text.trim token.toList)) = none →
    (∃ p ∈ subPaths (Text.trim token.toList), p.toList.head? ≠ some d) →
      parse d token = .error (.invalidCommand (String.ofList (Text.trim token.toList)))

theorem eq_subPaths_of_parse {paths : List String} (h : parse d token = .ok (select paths)) :
    verb? (String.ofList (Text.trim token.toList)) = none ∧
      (Text.trim token.toList).head? = some d ∧ paths = subPaths (Text.trim token.toList) := by
  rcases parse_eq_ok_iff.1 h with hverb | ⟨hverb, hd, hpaths⟩
  · unfold verb? at hverb
    split at hverb <;> cases hverb
  · exact ⟨hverb, hd, (select.inj hpaths).symm⟩

theorem forall_subPaths_iff {s : List Char} {q : List Char → Prop} :
    (∀ p ∈ subPaths s, q p.toList) ↔ ∀ p ∈ Path.pieces ' ' s, q p := by
  simp [subPaths_eq]

theorem ne_space_of_head?_trim (h : (Text.trim token.toList).head? = some d) : d ≠ ' ' := by
  rintro rfl
  cases Text.isBlank_of_head?_trim h

/-- What a token selects is never empty and starts with the delimiter in its first sub-path. -/
theorem subPaths_spec {paths : List String} (h : parse d token = .ok (select paths)) :
    (∃ p, paths.head? = some p ∧ p.toList.head? = some d) ∧
      ∀ p ∈ paths, p ≠ "" ∧ ' ' ∉ p.toList := by
  obtain ⟨-, hhead, rfl⟩ := eq_subPaths_of_parse h
  have hd : d ≠ ' ' := ne_space_of_head?_trim hhead
  constructor
  · obtain ⟨s, hs⟩ := List.head?_eq_some_iff.1 hhead
    obtain ⟨p, ps, hpieces⟩ := Path.exists_pieces_cons hd s
    rw [hs, subPaths_eq, hpieces]
    exact ⟨_, rfl, by simp⟩
  · intro p hp
    obtain ⟨s, hs, rfl⟩ := List.mem_map.1 hp
    obtain ⟨hne, hspace, -⟩ := Path.exists_of_mem_pieces hs
    exact ⟨by simpa using hne, by simpa using hspace⟩

theorem isVetted_of_ne_select (h : ∀ paths, parse d token ≠ .ok (select paths)) :
    IsVetted d token where
  selected paths hp := absurd hp (h paths)
  refused hverb _ := parse_of_not_led hverb fun hhead =>
    h _ (parse_eq_ok_iff.2 (.inr ⟨hverb, hhead, rfl⟩))

theorem isVetted_iff (hverb : verb? (String.ofList (Text.trim token.toList)) = none)
    (hhead : (Text.trim token.toList).head? = some d) :
    IsVetted d token ↔ ∀ p ∈ subPaths (Text.trim token.toList), p.toList.head? = some d := by
  have hparse : parse d token = .ok (select (subPaths (Text.trim token.toList))) :=
    parse_eq_ok_iff.2 (.inr ⟨hverb, hhead, rfl⟩)
  constructor
  · exact fun h p hp => ((h.selected _ hparse).led p hp).2.2
  · refine fun hled => ⟨fun paths h => ?_, fun _ ⟨p, hp, hne⟩ => absurd (hled p hp) hne⟩
    obtain ⟨⟨p, hp, -⟩, hpaths⟩ := subPaths_spec h
    obtain ⟨-, -, rfl⟩ := eq_subPaths_of_parse h
    exact ⟨List.ne_nil_of_mem (List.mem_of_head? hp),
      fun p hp => ⟨(hpaths p hp).1, (hpaths p hp).2, hled p hp⟩⟩

/-- Only the first sub-path of a token is looked at: it starts with the delimiter, and all start with
it just where no character but the delimiter and the space follows a space. -/
theorem tokens_are_vetted_iff (d : Char) (token : String) :
    (∀ paths, parse d token = .ok (select paths) →
      (∃ p, paths.head? = some p ∧ p.toList.head? = some d) ∧
        ∀ p ∈ paths, p ≠ "" ∧ ' ' ∉ p.toList) ∧
    (IsVetted d token ↔ (verb? (String.ofList (Text.trim token.toList)) = none →
      (Text.trim token.toList).head? = some d →
        ∀ u c v, Text.trim token.toList = u ++ ' ' :: c :: v → c = ' ' ∨ c = d)) := by
  refine ⟨fun paths => subPaths_spec, ?_⟩
  by_cases hselect : ∃ paths, parse d token = .ok (select paths)
  · obtain ⟨paths, h⟩ := hselect
    obtain ⟨hverb, hhead, -⟩ := eq_subPaths_of_parse h
    rw [isVetted_iff hverb hhead, forall_subPaths_iff (q := fun p => p.head? = some d),
      Path.forall_pieces_head?_iff (ne_space_of_head?_trim hhead) hhead]
    exact ⟨fun hled _ _ => hled, fun hled => hled hverb hhead⟩
  · rw [not_exists] at hselect
    refine iff_of_true (isVetted_of_ne_select hselect) fun hverb hhead => ?_
    exact absurd (parse_eq_ok_iff.2 (.inr ⟨hverb, hhead, rfl⟩)) (hselect _)

/-- Two sub-paths with more than one space between them, and blanks around them. -/
theorem tokens_are_vetted_iff_of_two_paths :
    IsVetted '.' " .a  .b " ∧ AreSubPaths '.' [".a", ".b"] := by
  have htrim : Text.trim " .a  .b ".toList = ".a  .b".toList := by decide +kernel
  have hvetted : IsVetted '.' " .a  .b " := by
    refine (tokens_are_vetted_iff '.' " .a  .b ").2.2 fun hverb hhead => ?_
    have hled : ∀ p ∈ Path.pieces ' ' ".a  .b".toList, p.head? = some '.' := by decide
    rw [htrim]
    exact (Path.forall_pieces_head?_iff (by decide) rfl).1 hled
  exact ⟨hvetted, hvetted.selected _ rfl⟩

/-- A second sub-path without the delimiter is taken all the same. -/
theorem token_with_bare_word_is_not_vetted :
    parse '.' ".a b" = .ok (select [".a", "b"]) ∧ ¬ IsVetted '.' ".a b" := by
  have hparse : parse '.' ".a b" = .ok (select [".a", "b"]) := rfl
  refine ⟨hparse, fun h => ?_⟩
  have hled := ((h.selected _ hparse).led "b" (by simp)).2.2
  cases hled

/-! ## Printed tokens -/

theorem toList_text_select (s : List Char) :
    (select (subPaths s)).text.toList = [' '].intercalate (Path.pieces ' ' s) := by
  rw [text, String.toList_intercalate, subPaths_eq, List.map_map]
  congr 1
  exact (List.map_congr_left fun p _ => String.toList_ofList).trans (List.map_id _)

theorem subPaths_text_select (s : List Char) :
    subPaths (select (subPaths s)).text.toList = subPaths s := by
  rw [toList_text_select, subPaths_eq, subPaths_eq, Path.pieces_intercalate]

theorem head?_text_select {s : List Char} (hs : s.head? = some d) (hd : d ≠ ' ') :
    (select (subPaths s)).text.toList.head? = some d := by
  obtain ⟨t, rfl⟩ := List.head?_eq_some_iff.1 hs
  obtain ⟨p, ps, hpieces⟩ := Path.exists_pieces_cons hd t
  rw [toList_text_select, hpieces, List.intercalate_cons_cons_left, List.head?_cons]

theorem getLast?_text_select {s : List Char} {c : Char} (hs : s.getLast? = some c) (hc : c ≠ ' ') :
    (select (subPaths s)).text.toList.getLast? = some c := by
  obtain ⟨t, rfl⟩ := List.getLast?_eq_some_iff.1 hs
  obtain ⟨ps, p, hpieces⟩ := Path.exists_pieces_concat hc t
  rw [toList_text_select, hpieces]
  clear hpieces
  induction ps with
  | nil => rw [List.nil_append, List.intercalate_singleton, List.getLast?_concat]
  | cons q ps ih =>
    rw [List.cons_append, List.intercalate_cons_of_ne_nil (by simp), List.getLast?_append, ih]
    rfl

/-- Sub-paths are not printed as a verb, since without a space they are the token. -/
theorem verb?_text_select {s : List Char} (hhead : s.head? = some d) (hd : d ≠ ' ')
    (hlast : s.getLast? ≠ some ' ') (hverb : verb? (String.ofList s) = none) :
    verb? (select (subPaths s)).text = none := by
  cases h : verb? (select (subPaths s)).text with
  | none => rfl
  | some verb =>
    have hne : (select (subPaths s)).text.toList ≠ [] := by
      intro hnil
      have hsame := head?_text_select hhead hd
      rw [hnil] at hsame
      cases hsame
    have hpieces := Path.pieces_intercalate ' ' s
    rw [← toList_text_select, Path.pieces_eq_singleton (text_of_verb? h).2 hne] at hpieces
    have hs : s = (select (subPaths s)).text.toList := by
      refine Path.eq_of_pieces_eq_singleton (fun hspace => ?_) hlast hpieces.symm
      cases hhead.symm.trans hspace
      exact hd rfl
    rw [hs, String.ofList_toList, h] at hverb
    cases hverb

/-- A printed command is read as that command. -/
theorem parse_text (h : parse d token = .ok command) : parse d command.text = .ok command := by
  rcases parse_eq_ok_iff.1 h with hverb | ⟨hverb, hhead, rfl⟩
  · refine parse_eq_ok_iff.2 (.inl ?_)
    rw [(text_of_verb? hverb).1, String.toList_ofList, Text.trim_trim]
    exact hverb
  · have hblank {c : Char} (hc : Text.isBlank c = false) : c ≠ ' ' := by
      rintro rfl
      cases hc
    obtain ⟨e, hlast⟩ : ∃ e, (Text.trim token.toList).getLast? = some e := by
      rw [← Option.isSome_iff_exists, List.getLast?_isSome]
      intro hnil
      rw [hnil] at hhead
      cases hhead
    have hd : Text.isBlank d = false := Text.isBlank_of_head?_trim hhead
    have he : Text.isBlank e = false := Text.isBlank_of_getLast?_trim hlast
    generalize Text.trim token.toList = s at *
    have htext := head?_text_select hhead (hblank hd)
    have htrim : Text.trim (select (subPaths s)).text.toList =
        (select (subPaths s)).text.toList := by
      refine Text.trim_eq_self (fun c hc => ?_) fun c hc => ?_
      · cases htext.symm.trans hc
        exact hd
      · cases (getLast?_text_select hlast (hblank he)).symm.trans hc
        exact he
    refine parse_eq_ok_iff.2 (.inr ?_)
    rw [htrim, String.ofList_toList, subPaths_text_select]
    refine ⟨verb?_text_select hhead (hblank hd) (fun hspace => ?_) hverb, htext, rfl⟩
    cases hlast.symm.trans hspace
    cases he

/-- A printed command has no character but the space that the token did not have. -/
theorem mem_of_mem_text {c : Char} (hc : c ≠ ' ') (h : parse d token = .ok command)
    (hmem : c ∈ command.text.toList) : c ∈ token.toList := by
  rcases parse_eq_ok_iff.1 h with hverb | ⟨-, -, rfl⟩
  · rw [(text_of_verb? hverb).1, String.toList_ofList] at hmem
    exact Text.mem_of_mem_trim hmem
  · rw [toList_text_select] at hmem
    obtain ⟨p, hp, hmem⟩ :=
      (exists_of_mem_intercalate hmem).resolve_left (mt List.mem_singleton.1 hc)
    obtain ⟨-, -, u, v, hs, -⟩ := Path.exists_of_mem_pieces hp
    refine Text.mem_of_mem_trim (s := token.toList) ?_
    rw [hs]
    simp [hmem]

end Command

/-! ## Printed requests -/

namespace Request

variable {d : Char} {line : String} {r : Request}

/-- The path and the commands of a request, with a bar between them. -/
def text (r : Request) : String := "|".intercalate (r.path :: r.chain.map Command.text)

theorem not_mem_of_mem_tokens {token : String} (h : token ∈ tokens line) : '|' ∉ token.toList := by
  rw [tokens, List.mem_map] at h
  obtain ⟨s, hs, rfl⟩ := h
  rw [String.toList_ofList]
  generalize line.toList = t at hs
  induction t using Path.inductPieces '|' with
  | whole t ht =>
    rw [List.splitOn_eq_singleton ht, List.mem_singleton] at hs
    rw [hs]
    exact ht
  | cut t u ht ih =>
    rw [List.splitOn_append_cons_self_of_not_mem ht, List.mem_cons] at hs
    rcases hs with rfl | hs
    · exact ht
    · exact ih hs

theorem tokens_text (hpath : '|' ∉ r.path.toList)
    (hchain : ∀ command ∈ r.chain, '|' ∉ command.text.toList) :
    tokens r.text = r.path :: r.chain.map Command.text := by
  have hbar : ∀ s ∈ (r.path :: r.chain.map Command.text).map String.toList, '|' ∉ s := by
    intro s hs
    rw [List.map_cons, List.map_map, List.mem_cons, List.mem_map] at hs
    rcases hs with rfl | ⟨command, hcommand, rfl⟩
    · exact hpath
    · exact hchain command hcommand
  have hsplit := List.splitOn_intercalate '|' hbar (by simp)
  rw [tokens, Request.text, String.toList_intercalate]
  refine (congrArg (List.map String.ofList) hsplit).trans ?_
  rw [List.map_map]
  exact (List.map_congr_left fun s _ => String.ofList_toList).trans (List.map_id _)

theorem parse_eq_ok_iff : parse d line = .ok r ↔ ∃ path rest, tokens line = path :: rest ∧
    rest.map (Command.parse d) = r.chain.map .ok ∧
      String.ofList (Text.trim path.toList) = r.path := by
  obtain ⟨path, rest, htokens⟩ : ∃ path rest, tokens line = path :: rest :=
    List.exists_cons_of_ne_nil (mt List.map_eq_nil_iff.1 (List.splitOn_ne_nil _ _))
  rw [parse, htokens]
  simp only [List.cons.injEq, exists_and_left, exists_eq_left', and_assoc]
  constructor
  · intro h
    cases hchain : rest.mapM (Command.parse d) with
    | error e =>
      rw [hchain] at h
      cases h
    | ok chain =>
      rw [hchain] at h
      cases h
      exact ⟨map_of_mapM hchain, rfl⟩
  · rintro ⟨hchain, hpath⟩
    rw [mapM_of_map hchain, hpath]
    rfl

/-- A printed request is read as that request. -/
theorem parse_text (h : parse d line = .ok r) : parse d r.text = .ok r := by
  obtain ⟨path, rest, htokens, hchain, hpath⟩ := parse_eq_ok_iff.1 h
  have hbar {token : String} (hmem : token ∈ path :: rest) : '|' ∉ token.toList :=
    not_mem_of_mem_tokens (htokens ▸ hmem)
  have hcommand : ∀ command ∈ r.chain, ∃ token ∈ rest, Command.parse d token = .ok command := by
    intro command hmem
    exact List.mem_map.1 (hchain ▸ List.mem_map_of_mem hmem)
  have htext : tokens r.text = r.path :: r.chain.map Command.text := by
    refine tokens_text (fun hmem => ?_) fun command hc hmem => ?_
    · rw [← hpath, String.toList_ofList] at hmem
      exact hbar List.mem_cons_self (Text.mem_of_mem_trim hmem)
    · obtain ⟨token, htoken, hparse⟩ := hcommand command hc
      exact hbar (List.mem_cons_of_mem _ htoken) (Command.mem_of_mem_text (by decide) hparse hmem)
  refine parse_eq_ok_iff.2 ⟨r.path, _, htext, ?_, ?_⟩
  · rw [List.map_map]
    refine List.map_congr_left fun command hc => ?_
    obtain ⟨token, -, hparse⟩ := hcommand command hc
    exact Command.parse_text hparse
  · rw [← hpath, String.toList_ofList, Text.trim_trim]

end Request

/-- Requests and single commands are read again as they were printed. -/
theorem requests_survive_printing (d : Char) :
    (∀ line r, Request.parse d line = .ok r → Request.parse d r.text = .ok r) ∧
      ∀ token command, Command.parse d token = .ok command →
        Command.parse d command.text = .ok command :=
  ⟨fun _ _ => Request.parse_text, fun _ _ => Command.parse_text⟩

/-- The delimiter is the first letter of a verb, and the sub-paths make up the verb but for a
space. -/
theorem requests_survive_printing_beside_verb :
    let r : Request := ⟨"x", [.select ["l", "ength\tl"], .length]⟩
    Request.parse 'l' " x | l  ength\tl |length" = .ok r ∧ r.text = "x|l ength\tl|length" ∧
      Request.parse 'l' r.text = .ok r ∧ Command.parse 'l' "l ength" = .ok (.select ["l", "ength"]) := by
  intro r
  have hline : Request.parse 'l' " x | l  ength\tl |length" = .ok r := rfl
  have htoken : Command.parse 'l' "l  ength" = .ok (.select ["l", "ength"]) := rfl
  exact ⟨hline, by decide, (requests_survive_printing 'l').1 _ _ hline,
    (requests_survive_printing 'l').2 _ _ htoken⟩

end ConfigTree
