import DataAgent.Mcp.ToolResult
import DataAgent.Python.Strip
import DataAgent.Regex.Scan
import DataAgent.Server.Execute
import DataAgent.Server.Inspect

/-!
# Errors across the process boundary

The text of a server exception, as FastMCP sends it, and the reason that the client reads off it.

* `errorText`, `errorAnswer` : the error result of a tool; `Exc.message` : the texts of the server itself;
* **`hasPhrase_errorText`** : a safe phrase in it comes from the name of the tool or from the message;
* `silent_of_execute`, `silent_of_inspect` : only a `TimeoutError` of the server has a phrase in its message;
* **`timeouts_survive_iff`** : the reason is the right one for every exception, whatever the tool is called, unless a
  phrase is in its name.
-/

namespace DataAgent.Mcp
open Python Regex Pattern Server

/-! ## Texts in texts -/

theorem contains_iff {p t : Text} : contains p t = true ↔ p <:+: t := by
  induction t with
  | nil => rw [contains, List.isEmpty_iff, List.infix_nil]
  | cons c t ih => rw [contains, Bool.or_eq_true, List.isPrefixOf_iff_prefix, ih, List.infix_cons_iff]

/-- A text that begins with a character not in `x` is not found before the end of `x`. -/
theorem infix_append_iff {a : Char} {p x y : Text} (h : a ∉ x) : a :: p <:+: x ++ y ↔ a :: p <:+: y := by
  induction x with
  | nil => rfl
  | cons c x ih =>
    rw [List.mem_cons, not_or] at h
    rw [List.cons_append, List.infix_cons_iff, ih h.2, List.cons_prefix_cons]
    simp [h.1]

theorem isPrefix_append_cons {sep : Char} {p x y : Text} (h : sep ∉ p) : p <+: x ++ sep :: y ↔ p <+: x := by
  induction p generalizing x with
  | nil => simp
  | cons a p ih =>
    rw [List.mem_cons, not_or] at h
    cases x with
    | nil => simp [List.cons_prefix_cons, Ne.symm h.1]
    | cons c x => rw [List.cons_append, List.cons_prefix_cons, List.cons_prefix_cons, ih h.2]

/-- A text without the separator is on one side of it. -/
theorem infix_append_cons_iff {sep : Char} {p x y : Text} (h : sep ∉ p) :
    p <:+: x ++ sep :: y ↔ p <:+: x ∨ p <:+: y := by
  induction x with
  | nil =>
    rw [List.nil_append, List.infix_cons_iff, List.infix_nil]
    exact or_congr_left ((isPrefix_append_cons (x := []) h).trans List.prefix_nil)
  | cons c x ih =>
    rw [List.cons_append, List.infix_cons_iff, ih, ← List.cons_append, isPrefix_append_cons h, List.infix_cons_iff,
      or_assoc]

/-! ## Phrases -/

/-- One of the safe phrases is in the text. -/
def HasPhrase (t : Text) : Prop := ∃ p ∈ timeoutSafePhrases, p <:+: t

theorem hasPhrase_iff {t : Text} : (timeoutSafePhrases.any fun phrase => contains phrase t) = true ↔ HasPhrase t := by
  rw [List.any_eq_true]
  exact exists_congr fun p => and_congr_right fun _ => contains_iff

instance (t : Text) : Decidable (HasPhrase t) := decidable_of_iff _ hasPhrase_iff

/-- The first letters of the phrases are capitals, and there is a space but no colon in them. -/
theorem phrase_shape {p : Text} (hp : p ∈ timeoutSafePhrases) :
    (∃ a rest, p = a :: rest ∧ (a = 'D' ∨ a = 'S')) ∧ ' ' ∈ p ∧ ':' ∉ p := by
  have h : ∀ p ∈ timeoutSafePhrases, (p.head? = some 'D' ∨ p.head? = some 'S') ∧ ' ' ∈ p ∧ ':' ∉ p := by decide
  obtain ⟨hhead, hspace, hcolon⟩ := h p hp
  refine ⟨?_, hspace, hcolon⟩
  cases p with
  | nil => simp at hhead
  | cons a rest => exact ⟨a, rest, rfl, by simpa using hhead⟩

theorem hasPhrase_append_iff {x : Text} (hd : 'D' ∉ x) (hs : 'S' ∉ x) (y : Text) :
    HasPhrase (x ++ y) ↔ HasPhrase y := by
  refine exists_congr fun p => and_congr_right fun hp => ?_
  obtain ⟨⟨a, rest, rfl, ha⟩, -⟩ := phrase_shape hp
  refine infix_append_iff ?_
  rcases ha with rfl | rfl
  · exact hd
  · exact hs

theorem hasPhrase_append_colon_iff (x y : Text) : HasPhrase (x ++ ':' :: y) ↔ HasPhrase x ∨ HasPhrase y := by
  constructor
  · rintro ⟨p, hp, h⟩
    rcases (infix_append_cons_iff (phrase_shape hp).2.2).mp h with h | h
    · exact Or.inl ⟨p, hp, h⟩
    · exact Or.inr ⟨p, hp, h⟩
  · rintro (⟨p, hp, h⟩ | ⟨p, hp, h⟩)
    · exact ⟨p, hp, (infix_append_cons_iff (phrase_shape hp).2.2).mpr (Or.inl h)⟩
    · exact ⟨p, hp, (infix_append_cons_iff (phrase_shape hp).2.2).mpr (Or.inr h)⟩

/-- There is no phrase in a text without spaces. -/
theorem not_hasPhrase_of_solid {t : Text} (h : ' ' ∉ t) : ¬ HasPhrase t := by
  rintro ⟨p, hp, hfound⟩
  exact h (hfound.subset (phrase_shape hp).2.1)

/-! ## The error result -/

/-- What FastMCP puts before the name of the tool. -/
def errorLead : Text := "Error executing tool ".toList

/-- The text that FastMCP makes of an exception. -/
def errorText (toolName message : Text) : Text := errorLead ++ toolName ++ [':', ' '] ++ message

/-- **A phrase comes from the name or from the message.** -/
theorem hasPhrase_errorText (toolName message : Text) :
    HasPhrase (errorText toolName message) ↔ HasPhrase toolName ∨ HasPhrase message := by
  have hsplit : errorText toolName message = (errorLead ++ toolName) ++ ':' :: ([' '] ++ message) := by
    simp [errorText]
  rw [hsplit, hasPhrase_append_colon_iff, hasPhrase_append_iff (by decide) (by decide),
    hasPhrase_append_iff (by decide) (by decide)]

/-- The answer to a call whose tool raised an exception. -/
def errorAnswer (J : Type) (toolName message : Text) : CallToolResult J where
  isError := true
  content := [some (errorText toolName message)]
  structuredContent := none

theorem extractErrorText_errorAnswer (J : Type) (toolName message : Text) :
    extractErrorText (errorAnswer J toolName message) = errorText toolName message := by
  have hne : (errorText toolName message).isEmpty = false := by
    rw [errorText]
    simp
  simp [extractErrorText, errorAnswer, hne]

/-- The call ends in `MCPToolExecutionError` with the reason. -/
def EndsWith (toolName message : Text) (reason : String) : Prop :=
  ∀ (J M : Type) (modelValidate : J → Option M), ∃ text,
    (readTool modelValidate (String.ofList toolName) false (.returned (errorAnswer J toolName message))).2 =
      .error (.toolExecution text reason)

theorem endsWith_iff {toolName message : Text} {reason : String} : EndsWith toolName message reason ↔
    reason = if HasPhrase toolName ∨ HasPhrase message then "tool_timeout" else "tool_error" := by
  have hclass : ∀ J : Type, (classifyToolError (errorAnswer J toolName message)).2 =
      if HasPhrase toolName ∨ HasPhrase message then "tool_timeout" else "tool_error" := by
    intro J
    rw [classifyToolError, extractErrorText_errorAnswer]
    simp only [hasPhrase_iff, hasPhrase_errorText]
    split <;> rfl
  have hread : ∀ (J M : Type) (modelValidate : J → Option M),
      (readTool modelValidate (String.ofList toolName) false (.returned (errorAnswer J toolName message))).2 =
        .error (.toolExecution (classifyToolError (errorAnswer J toolName message)).1
          (classifyToolError (errorAnswer J toolName message)).2) := fun J M modelValidate => rfl
  constructor
  · intro h
    obtain ⟨text, htext⟩ := h Unit Unit some
    rw [hread, hclass] at htext
    simp only [Except.error.injEq, ClientError.toolExecution.injEq] at htext
    exact htext.2.symm
  · rintro rfl J M modelValidate
    exact ⟨_, by rw [hread, hclass]⟩

/-! ## The messages of the server -/

/-- The text of an exception that the server words itself. -/
def serverMessage : Server.Exc → Option Text
  | .valueError message | .connectionError message | .timeoutError message | .runtimeError message =>
    some message.toList
  | _ => none

/-- No timeout: a `ValueError`, `RuntimeError` or `ConnectionError` of the server. -/
def IsPlainError : Server.Exc → Prop
  | .valueError _ | .connectionError _ | .runtimeError _ => True
  | _ => False

/-- A message without a phrase in it. -/
def Plain (message : String) : Prop := ¬ HasPhrase message.toList

instance (message : String) : Decidable (Plain message) := by unfold Plain; infer_instance

theorem hasPhrase_queryTimeoutMessage (seconds : Int) : HasPhrase (queryTimeoutMessage seconds).toList := by
  have h1 : "DB query timeout exceeded".toList <+: "DB query timeout exceeded (".toList := by decide
  have h2 : "DB query timeout exceeded (".toList <+: ("DB query timeout exceeded (" ++ toString seconds).toList :=
    ⟨_, String.toList_append.symm⟩
  have h3 : ("DB query timeout exceeded (" ++ toString seconds).toList <+: (queryTimeoutMessage seconds).toList :=
    ⟨_, String.toList_append.symm⟩
  exact ⟨_, by decide, (h1.trans (h2.trans h3)).isInfix⟩

theorem hasPhrase_inspectionTimeoutMessage : HasPhrase inspectionTimeoutMessage.toList :=
  ⟨_, by decide, List.infix_rfl⟩

theorem plain_connectFailure : Plain connectFailure := by decide +kernel
theorem plain_queryFailure : Plain queryFailure := by decide +kernel
theorem plain_inspectionFailure : Plain inspectionFailure := by decide +kernel

theorem require_bind_error {α : Type} {ok : Bool} {message error : String} {f : Unit → Except String α}
    (h : (Server.require ok message >>= f) = .error error) : error = message ∨ f () = .error error := by
  cases ok with
  | true => exact Or.inr h
  | false => exact Or.inl (Except.error.inj h).symm

theorem validateInput_plain {timeout rows : Int} {message : String} (h : validateInput timeout rows = .error message) :
    Plain message := by
  have h1 : Plain (boundMessage "query_timeout_seconds" minQueryTimeoutSeconds maxQueryTimeoutSeconds) := by
    decide +kernel
  have h2 : Plain (boundMessage "maximum_returned_rows" minMaximumReturnedRows maxMaximumReturnedRows) := by
    decide +kernel
  unfold validateInput at h
  rcases require_bind_error h with rfl | h
  · exact h1
  · unfold Server.require raiseUnless at h
    split at h
    · simp at h
    · exact Except.error.inj h ▸ h2

section
variable {U : Unicode}

theorem not_isSpace_of_eqv {a c : Char} (ha : a.isAlpha = true) (h : eqvIgnoreCase a c = true) : isSpace c = false := by
  simp only [eqvIgnoreCase, Bool.or_eq_true, Bool.and_eq_true, beq_iff_eq] at h
  rcases h with ((h | ⟨-, rfl | rfl⟩) | ⟨-, rfl⟩) | ⟨-, rfl⟩
  · have hupper : c.toUpper = a.toUpper := by
      rw [← Char.toUpper_toLower_eq_toUpper, ← h, Char.toUpper_toLower_eq_toUpper]
    have halnum := (isAlphanum_iff a).mp (by simp [Char.isAlphanum, ha])
    rw [← isSpace_toUpper, hupper, isSpace_toUpper, ← Bool.not_eq_true, isSpace_iff]
    omega
  all_goals rfl

theorem solid_of_eqv {k w : Text} (h : List.Forall₂ (fun a c => eqvIgnoreCase a c = true) k w)
    (hk : ∀ a ∈ k, a.isAlpha = true) : ∀ c ∈ w, isSpace c = false := by
  induction h with
  | nil => simp
  | cons hac _ ih =>
    rw [List.forall_mem_cons] at hk ⊢
    exact ⟨not_isSpace_of_eqv hk.1 hac, ih hk.2⟩

/-- The message that quotes a keyword, which has no space in it. -/
theorem plain_forbidden (hU : SolidUpper U) {t : Text} {m : Match}
    (h : search (isWord U) Server.forbiddenPattern t = some m) :
    Plain ("sql must not contain forbidden keyword: " ++ String.ofList (upper U ((m.group 1).getD []))) := by
  obtain ⟨k, hk, w, hw, heqv⟩ := group_of_keywords h
  have hw' := solid_of_eqv heqv (forbiddenKeywords_alpha k hk).2
  have hsolid : ' ' ∉ upper U w := by
    intro hm
    obtain ⟨c, hc, hd⟩ := List.mem_flatMap.mp hm
    exact absurd (hU c (hw' c hc) _ hd) (by decide)
  have hd : 'D' ∉ "sql must not contain forbidden keyword: ".toList := by decide
  have hs : 'S' ∉ "sql must not contain forbidden keyword: ".toList := by decide
  have htext : ("sql must not contain forbidden keyword: " ++ String.ofList (upper U w)).toList =
      "sql must not contain forbidden keyword: ".toList ++ upper U w :=
    String.toList_append.trans (congrArg (_ ++ ·) String.toList_ofList)
  rw [hw, Option.getD_some, Plain, htext, hasPhrase_append_iff hd hs]
  exact not_hasPhrase_of_solid hsolid

theorem validateSql_plain (hU : SolidUpper U) {sql : Text} {message : String}
    (h : validateSql U sql = .error message) : Plain message := by
  have h1 : Plain "sql must not be blank" := by decide +kernel
  have h2 : Plain "sql must not contain multiple statements" := by decide +kernel
  have h3 : Plain "sql must not contain comments" := by decide +kernel
  have h4 : Plain "sql must start with SELECT" := by decide +kernel
  unfold validateSql at h
  rcases require_bind_error h with rfl | h
  · exact h1
  rcases require_bind_error h with rfl | h
  · exact h2
  rcases require_bind_error h with rfl | h
  · exact h3
  rcases require_bind_error h with rfl | h
  · exact h4
  split at h
  · rename_i m hm
    exact Except.error.inj h ▸ plain_forbidden hU hm
  · simp [pure, Except.pure] at h

/-! ## What the tools raise -/

variable {S P : Type} {d : QueryDriver S P} {sql t : Text} {parameters : List P} {timeout rows : Int}

theorem checks_plain (hU : SolidUpper U) {exc : Server.Exc} (h : checks U sql timeout rows = .error exc) :
    ∃ message, exc = .valueError message ∧ Plain message := by
  unfold checks at h
  split at h
  · rename_i message hinput
    exact ⟨message, (Except.error.inj h).symm, validateInput_plain hinput⟩
  · cases hsql : validateSql U sql with
    | error message =>
      rw [hsql] at h
      exact ⟨message, (Except.error.inj h).symm, validateSql_plain hU hsql⟩
    | ok t => simp [hsql, Except.mapError] at h

theorem getConnection_error {d : Driver} {exc : Server.Exc} (h : (getConnection d).result = .error exc) :
    exc = .validation ∨ exc = .connectionError connectFailure ∨ exc = .other := by
  unfold getConnection at h
  split at h
  · split at h
    · simp at h
    · exact Or.inr (Or.inl (Except.error.inj h).symm)
    · exact Or.inr (Or.inr (Except.error.inj h).symm)
  · exact Or.inl (Except.error.inj h).symm

/-- A plain error is that of the connection, or comes from its use. -/
theorem withConnection_plain {d : Driver} {α : Type} {use : Step α} {exc : Server.Exc}
    (h : (withConnection d use).result = .error exc) (hplain : IsPlainError exc) :
    exc = .connectionError connectFailure ∨ use.result = .error exc := by
  by_cases hd : d.Connects
  · cases hc : d.close with
    | ok u => exact Or.inr (withConnection_result hd hc ▸ h)
    | error f =>
      rw [withConnection_result_of_close hd hc, Except.error.injEq] at h
      subst h
      cases f <;> exact hplain.elim
  · obtain ⟨e, he, -⟩ := getConnection_of_not hd
    have herr : (getConnection d).result = .error e := by rw [he]; rfl
    rw [withConnection, Run.bracket_result_of_error herr, Except.error.injEq] at h
    subst h
    rcases getConnection_error herr with rfl | rfl | rfl
    · exact hplain.elim
    · exact Or.inl rfl
    · exact hplain.elim

theorem sanitise_plain {timeoutText failureText : String} {f : Fault}
    (h : IsPlainError (sanitise U timeoutText failureText f)) :
    sanitise U timeoutText failureText f = .runtimeError failureText := by
  cases f with
  | other => exact h.elim
  | pyodbc e =>
    rw [sanitise] at h ⊢
    split
    · rename_i htimeout
      rw [if_pos htimeout] at h
      exact h.elim
    · rfl

theorem work_error {m : Nat} {exc : Server.Exc} : (work U d t parameters timeout m).result = .error exc ↔
    ∃ f, (query d t parameters m).result = .error f ∧
      sanitise U (queryTimeoutMessage timeout) queryFailure f = exc := by
  rw [work, Run.result_bind, Run.result_reraise]
  cases (query d t parameters m).result <;> simp [Except.mapError, Except.bind]

theorem inspectSchema_error {d : SchemaDriver} {correlationId : Text} {exc : Server.Exc} :
    (Server.inspectSchema U d correlationId).result = .error exc ↔
      (withConnection d.toDriver ((catalogQueries d).reraise
        (sanitise U inspectionTimeoutMessage inspectionFailure))).result = .error exc := by
  rw [Server.inspectSchema, Run.result_bind_pure]
  cases (withConnection d.toDriver ((catalogQueries d).reraise
    (sanitise U inspectionTimeoutMessage inspectionFailure))).result <;> simp [Except.map]

/-- **A `ValueError`, `RuntimeError` or `ConnectionError` of a query has no phrase in its message.** -/
theorem execute_plain (hU : SolidUpper U) {exc : Server.Exc} {message : Text}
    (h : (Server.execute U d sql parameters timeout rows).result = .error exc) (hplain : IsPlainError exc)
    (hmessage : serverMessage exc = some message) : ¬ HasPhrase message := by
  cases hc : checks U sql timeout rows with
  | error e =>
    obtain ⟨text, rfl, htext⟩ := checks_plain hU hc
    rw [execute_of_not_checks hc, Run.result_raise, Except.error.injEq] at h
    subst h
    exact Option.some.inj hmessage ▸ htext
  | ok t =>
    rw [execute_of_checks hc] at h
    rcases withConnection_plain h hplain with rfl | hwork
    · exact Option.some.inj hmessage ▸ plain_connectFailure
    · obtain ⟨f, -, rfl⟩ := work_error.mp hwork
      rw [sanitise_plain hplain] at hmessage
      exact Option.some.inj hmessage ▸ plain_queryFailure

theorem inspectSchema_plain {d : SchemaDriver} {correlationId : Text} {exc : Server.Exc} {message : Text}
    (h : (Server.inspectSchema U d correlationId).result = .error exc) (hplain : IsPlainError exc)
    (hmessage : serverMessage exc = some message) : ¬ HasPhrase message := by
  rcases withConnection_plain (inspectSchema_error.mp h) hplain with rfl | hwork
  · exact Option.some.inj hmessage ▸ plain_connectFailure
  · rw [Run.result_reraise] at hwork
    cases hq : (catalogQueries d).result with
    | ok r => simp [hq, Except.mapError] at hwork
    | error f =>
      obtain rfl : sanitise U inspectionTimeoutMessage inspectionFailure f = exc := by
        simpa [hq, Except.mapError] using hwork
      rw [sanitise_plain hplain] at hmessage
      exact Option.some.inj hmessage ▸ plain_inspectionFailure

/-- What becomes of a `pyodbc.Error` of a body: its message has a phrase exactly if it is a timeout. -/
theorem sanitise_message {timeoutText failureText : String} (htimeoutText : HasPhrase timeoutText.toList)
    (hfailureText : Plain failureText) (e : DbError) :
    ∃ message, serverMessage (sanitise U timeoutText failureText (.pyodbc e)) = some message ∧
      (HasPhrase message ↔ isTimeoutError U e = true) := by
  rw [sanitise]
  split
  · rename_i htimeout
    exact ⟨_, rfl, iff_of_true htimeoutText htimeout⟩
  · rename_i htimeout
    exact ⟨_, rfl, iff_of_false hfailureText htimeout⟩

/-! ## The reason at the other end -/

variable (U) in
/-- Whatever the tools raise, the client gives the right reason when it is told under this name. -/
structure TimeoutsSurvive (toolName : Text) : Prop where
  query : ∀ (S P : Type) (d : QueryDriver S P) (sql t : Text) (parameters : List P) (timeout rows : Int) (e : DbError),
    checks U sql timeout rows = .ok t → d.toDriver.Connects → d.close = .ok () →
    (Server.query d t parameters rows.toNat).result = .error (.pyodbc e) →
    ∃ exc message, (Server.execute U d sql parameters timeout rows).result = .error exc ∧
      serverMessage exc = some message ∧
      EndsWith toolName message (if isTimeoutError U e then "tool_timeout" else "tool_error")
  inspection : ∀ (d : SchemaDriver) (correlationId : Text) (e : DbError),
    d.toDriver.Connects → d.close = .ok () → (catalogQueries d).result = .error (.pyodbc e) →
    ∃ exc message, (Server.inspectSchema U d correlationId).result = .error exc ∧ serverMessage exc = some message ∧
      EndsWith toolName message (if isTimeoutError U e then "tool_timeout" else "tool_error")
  queryPlain : ∀ (S P : Type) (d : QueryDriver S P) (sql : Text) (parameters : List P) (timeout rows : Int)
    (exc : Server.Exc) (message : Text), (Server.execute U d sql parameters timeout rows).result = .error exc →
    IsPlainError exc → serverMessage exc = some message → EndsWith toolName message "tool_error"
  inspectionPlain : ∀ (d : SchemaDriver) (correlationId : Text) (exc : Server.Exc) (message : Text),
    (Server.inspectSchema U d correlationId).result = .error exc → IsPlainError exc →
    serverMessage exc = some message → EndsWith toolName message "tool_error"

theorem endsWith_of_iff {toolName message : Text} (hname : ¬ HasPhrase toolName) {b : Bool}
    (h : HasPhrase message ↔ b = true) :
    EndsWith toolName message (if b then "tool_timeout" else "tool_error") := by
  rw [endsWith_iff]
  simp only [hname, false_or, h]

theorem TimeoutsSurvive.of_not_hasPhrase (hU : SolidUpper U) {toolName : Text} (hname : ¬ HasPhrase toolName) :
    TimeoutsSurvive U toolName where
  query S P d sql t parameters timeout rows e hc hd hclose he := by
    obtain ⟨message, hmessage, hphrase⟩ :=
      sanitise_message (U := U) (hasPhrase_queryTimeoutMessage timeout) plain_queryFailure e
    refine ⟨_, message, ?_, hmessage, endsWith_of_iff hname hphrase⟩
    rw [execute_of_checks hc, withConnection_result hd hclose]
    exact work_error.mpr ⟨_, he, rfl⟩
  inspection d correlationId e hd hclose he := by
    obtain ⟨message, hmessage, hphrase⟩ :=
      sanitise_message (U := U) hasPhrase_inspectionTimeoutMessage plain_inspectionFailure e
    refine ⟨_, message, ?_, hmessage, endsWith_of_iff hname hphrase⟩
    rw [inspectSchema_error, withConnection_result hd hclose, Run.result_reraise, he]
    rfl
  queryPlain S P d sql parameters timeout rows exc message h hplain hmessage :=
    endsWith_of_iff hname (b := false) (iff_of_false (execute_plain hU h hplain hmessage) (by simp))
  inspectionPlain d correlationId exc message h hplain hmessage :=
    endsWith_of_iff hname (b := false) (iff_of_false (inspectSchema_plain h hplain hmessage) (by simp))

end

/-- A database that answers everything with nothing. -/
def idleDriver : QueryDriver Unit Unit where
  settingsValid := true
  connect := .ok ()
  setTimeout := .ok ()
  cursor := .ok ()
  close := .ok ()
  execute _ _ := .ok ()
  description := .ok none
  fetchmany _ := .ok []
  executionMs := 0

/-- The message for a blank statement is told as a timeout under a name with a phrase in it. -/
theorem not_hasPhrase_of_survive {U : Unicode} {toolName : Text} (h : TimeoutsSurvive U toolName) :
    ¬ HasPhrase toolName := by
  intro hname
  have hblank : checks U [] 10 100 = .error (.valueError "sql must not be blank") := rfl
  have hraised : (Server.execute U idleDriver [] [] 10 100).result = .error (.valueError "sql must not be blank") := by
    rw [execute_of_not_checks hblank]
    rfl
  have hends := h.queryPlain Unit Unit idleDriver [] [] 10 100 _ _ hraised trivial rfl
  rw [endsWith_iff, if_pos (Or.inl hname)] at hends
  simp at hends

/-- **The reason survives the process boundary, under every name without a phrase in it.** -/
theorem timeouts_survive_iff {U : Unicode} (hU : SolidUpper U) (toolName : Text) :
    TimeoutsSurvive U toolName ↔ ¬ HasPhrase toolName :=
  ⟨not_hasPhrase_of_survive, TimeoutsSurvive.of_not_hasPhrase hU⟩

/-- The names of the two tools. -/
theorem timeouts_survive_tools :
    TimeoutsSurvive .small "execute_readonly_query".toList ∧ TimeoutsSurvive .small "inspect_schema".toList :=
  ⟨(timeouts_survive_iff solidUpper_small _).mpr (by decide +kernel),
    (timeouts_survive_iff solidUpper_small _).mpr (by decide +kernel)⟩

/-- A tool that is called like a timeout. -/
theorem phrase_in_name : ¬ ∀ toolName : Text, TimeoutsSurvive .small toolName := by
  intro h
  exact not_hasPhrase_of_survive (h "DB query timeout exceeded".toList) (by decide +kernel)

end DataAgent.Mcp
