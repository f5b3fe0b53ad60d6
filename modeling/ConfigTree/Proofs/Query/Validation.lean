import ConfigTree.Proofs.Query.Limit
import ConfigTree.Proofs.Request

/-! Requests are looked at before they are run.  The first token that is no command ends the query
with nothing put out.  Where there is none, nothing that is said about requests or edits can go wrong
any more: what is left to fail is the depth. -/

namespace ConfigTree

/-- The error in the place of a result. -/
def error? {α ε : Type} : Except ε α → Option ε
  | .ok _ => none
  | .error e => some e

/-- A list is refused for the first of its elements that is. -/
theorem error?_mapM {α β ε : Type} (f : α → Except ε β) (as : List α) :
    error? (as.mapM f) = as.findSome? fun a => error? (f a) := by
  induction as with
  | nil => rfl
  | cons a as ih =>
    rw [List.mapM_cons, List.findSome?_cons, ← ih]
    cases f a with
    | error e => rfl
    | ok b => cases as.mapM f <;> rfl

theorem findSome?_flatMap {α β γ : Type} (f : β → Option γ) (g : α → List β) (as : List α) :
    (as.flatMap g).findSome? f = as.findSome? fun a => (g a).findSome? f := by
  induction as with
  | nil => rfl
  | cons a as ih =>
    rw [List.flatMap_cons, List.findSome?_append, List.findSome?_cons, ih]
    cases (g a).findSome? f <;> rfl

namespace Command

variable {d : Char} {token : String}

def verbs : List String :=
  ["length", "type", "keys", "values", "each", "iterate", "recurse", "dump"]

theorem verb?_eq_none_iff {s : String} : verb? s = none ↔ s ∉ verbs := by
  unfold verb? verbs
  split <;> simp_all

/-- The token without blanks around it. -/
def trimmed (token : String) : String := String.ofList (Text.trim token.toList)

/-- The token is no verb, and it cannot be sub-paths as it does not start with the delimiter. -/
def IsInvalid (d : Char) (token : String) : Prop :=
  trimmed token ∉ verbs ∧ (trimmed token).toList.head? ≠ some d

instance (d : Char) : DecidablePred (IsInvalid d) :=
  fun _ => inferInstanceAs (Decidable (_ ∧ _))

theorem isInvalid_iff : IsInvalid d token ↔
    verb? (String.ofList (Text.trim token.toList)) = none ∧
      (Text.trim token.toList).head? ≠ some d := by
  rw [IsInvalid, ← verb?_eq_none_iff, trimmed, String.toList_ofList]

/-- A token is refused by its name just where it is no command. -/
theorem error?_parse (d : Char) (token : String) :
    error? (parse d token) =
      if IsInvalid d token then some (.invalidCommand (trimmed token)) else none := by
  split
  · next h =>
    obtain ⟨hverb, hhead⟩ := isInvalid_iff.1 h
    rw [parse_of_not_led hverb hhead]
    rfl
  · next h =>
    rw [isInvalid_iff, not_and, not_not] at h
    obtain ⟨command, hcommand⟩ : ∃ command, parse d token = .ok command := by
      cases hverb : verb? (String.ofList (Text.trim token.toList)) with
      | some command => exact ⟨command, parse_eq_ok_iff.2 (.inl hverb)⟩
      | none => exact ⟨_, parse_eq_ok_iff.2 (.inr ⟨hverb, h hverb, rfl⟩)⟩
    rw [hcommand]
    rfl

end Command

theorem Request.error?_parse (d : Char) (line : String) :
    error? (parse d line) =
      (tokens line).tail.findSome? fun token => error? (Command.parse d token) := by
  rw [parse]
  split
  · next h => rw [h]; rfl
  · next path rest h =>
    rw [h, List.tail_cons, ← error?_mapM]
    cases rest.mapM (Command.parse d) <;> rfl

namespace Query

open Command (IsInvalid trimmed)

/-- The tokens behind the paths, in reading order over all requests. -/
def commandTokens (requests : List String) : List String :=
  requests.flatMap fun line => (Request.tokens line).tail

variable {o : Options} (root : Node) {requests : List String}

/-- The requests are refused for the first token that is. -/
theorem error?_parseAll (h : requests ≠ []) :
    error? (parseAll o requests) = (commandTokens requests).findSome? fun token =>
      error? (Command.parse o.inputDelimiter token) := by
  rw [parseAll, if_neg (by simpa using h), error?_mapM, commandTokens, findSome?_flatMap]
  simp only [Request.error?_parse]

theorem answer_of_error? {e : Error} (h : error? (parseAll o requests) = some e) :
    answer o root requests = ⟨[], false, .error e⟩ := by
  rw [answer]
  cases hparse : parseAll o requests with
  | ok parsed =>
    rw [hparse] at h
    cases h
  | error e' =>
    rw [hparse] at h
    cases h
    rfl

/-- Requests that have been read fail for depth or not at all. -/
theorem result_answer_of_parsed (h : error? (parseAll o requests) = none) :
    (answer o root requests).result = .ok () ∨
      (answer o root requests).result = .error (.tooDeep o.maxDepth) := by
  have hanswer := answer_eq_perform (o := o) (m := o.maxDepth) root requests
  cases hparse : parseAll o requests with
  | error e =>
    rw [hparse] at h
    cases h
  | ok parsed =>
    rw [hparse] at hanswer
    rw [show answer o root requests = _ from hanswer, result_answer, perform]
    split
    · exact .inl rfl
    · exact .inr rfl

theorem answer_of_isInvalid (h : requests ≠ []) {before after : List String} {token : String}
    (htokens : commandTokens requests = before ++ token :: after)
    (hbefore : ∀ t ∈ before, ¬ IsInvalid o.inputDelimiter t)
    (htoken : IsInvalid o.inputDelimiter token) :
    answer o root requests = ⟨[], false, .error (.invalidCommand (trimmed token))⟩ := by
  refine answer_of_error? root ?_
  rw [error?_parseAll h, List.findSome?_eq_some_iff]
  refine ⟨before, token, after, htokens, ?_, fun t ht => ?_⟩
  · rw [Command.error?_parse, if_pos htoken]
  · rw [Command.error?_parse, if_neg (hbefore t ht)]

theorem result_answer_of_forall (h : requests ≠ [])
    (htokens : ∀ token ∈ commandTokens requests, ¬ IsInvalid o.inputDelimiter token) :
    (answer o root requests).result = .ok () ∨
      (answer o root requests).result = .error (.tooDeep o.maxDepth) := by
  refine result_answer_of_parsed root ?_
  rw [error?_parseAll h, List.findSome?_eq_none_iff]
  intro token htoken
  rw [Command.error?_parse, if_neg (htokens token htoken)]

/-- A query ends with an invalid command just where a token is one; it is the first of them, and
nothing has been put out.  Every other query ends well or at the depth limit. -/
theorem invalid_command_precedes_output (h : requests ≠ []) :
    ((∃ s, (answer o root requests).result = .error (.invalidCommand s)) ↔
      ∃ token ∈ commandTokens requests, IsInvalid o.inputDelimiter token) ∧
    (∀ before token after, commandTokens requests = before ++ token :: after →
      (∀ t ∈ before, ¬ IsInvalid o.inputDelimiter t) → IsInvalid o.inputDelimiter token →
        answer o root requests = ⟨[], false, .error (.invalidCommand (trimmed token))⟩) ∧
    ((∀ token ∈ commandTokens requests, ¬ IsInvalid o.inputDelimiter token) →
      (answer o root requests).result = .ok () ∨
        (answer o root requests).result = .error (.tooDeep o.maxDepth)) := by
  refine ⟨⟨fun ⟨s, hs⟩ => ?_, fun hinvalid => ?_⟩, fun _ _ _ => answer_of_isInvalid root h,
    result_answer_of_forall root h⟩
  · by_contra hvalid
    have hresult := result_answer_of_forall root h fun token htoken hinvalid =>
      hvalid ⟨token, htoken, hinvalid⟩
    rw [hs] at hresult
    rcases hresult with hresult | hresult <;> cases hresult
  · obtain ⟨token, hfirst⟩ := Option.isSome_iff_exists.1
      (List.find?_isSome.2 (by simpa using hinvalid :
        ∃ token ∈ commandTokens requests, decide (IsInvalid o.inputDelimiter token) = true))
    obtain ⟨htoken, before, after, htokens, hbefore⟩ := List.find?_eq_some_iff_append.1 hfirst
    rw [answer_of_isInvalid root h htokens (by simpa using hbefore) (by simpa using htoken)]
    exact ⟨_, rfl⟩

/-- The sub-path, which a first request would put out, is never looked up; and what is well spelled
fails for nothing but depth. -/
theorem invalid_command_precedes_output_of_earlier_request :
    let root : Node := .object ⟨[("a", .single (.array [.int 1]))]⟩
    let requests := ["a | .0 ", "a| each | Keys |frob|length"]
    let valid := ["a|each|type"]
    let o : Options := { (default : Options) with maxDepth := 0 }
    requests ≠ [] ∧ valid ≠ [] ∧
    commandTokens requests = [" .0 ", " each "] ++ " Keys " :: ["frob", "length"] ∧
    (∀ t ∈ [" .0 ", " each "], ¬ IsInvalid '.' t) ∧ IsInvalid '.' " Keys " ∧
    answer o root requests = ⟨[], false, .error (.invalidCommand "Keys")⟩ ∧
    (∀ token ∈ commandTokens valid, ¬ IsInvalid '.' token) ∧
    ((answer o root valid).result = .ok () ∨ (answer o root valid).result = .error (.tooDeep 0)) ∧
    (answer o root valid).result = .error (.tooDeep 0) := by
  intro root requests valid o
  have hrequests : requests ≠ [] := List.cons_ne_nil _ _
  have hvalid : valid ≠ [] := List.cons_ne_nil _ _
  have htokens : commandTokens requests = [" .0 ", " each "] ++ " Keys " :: ["frob", "length"] := by
    decide
  have hbefore : ∀ t ∈ [" .0 ", " each "], ¬ IsInvalid '.' t := by decide
  have htoken : IsInvalid '.' " Keys " := by decide
  have hall : ∀ token ∈ commandTokens valid, ¬ IsInvalid '.' token := by decide
  obtain ⟨-, hfirst, -⟩ := invalid_command_precedes_output (o := o) root hrequests
  obtain ⟨-, -, hdepth⟩ := invalid_command_precedes_output (o := o) root hvalid
  have hname : trimmed " Keys " = "Keys" := by decide
  exact ⟨hrequests, hvalid, htokens, hbefore, htoken,
    hname ▸ hfirst _ _ _ htokens hbefore htoken, hall, hdepth hall, rfl⟩

end Query

end ConfigTree
