import DataAgent.Agent.Service
import DataAgent.Guardrail.Tables
import DataAgent.Python.Strip
import DataAgent.Server.Execute

/-!
# The two validators

A statement that `sql_guardrail.validate` returns goes to `readonly_query_executor` as it is.

* `Cleaned` : what `clean` returns; both validators' trims leave it alone (`Cleaned.clean_eq`, `Cleaned.trim_eq`);
* **`validators_agree`** : both validators return the approved text unchanged, within the bounds that the agent asks
  for.
-/

namespace DataAgent.Guardrail
open Python Regex
open Agent (MetadataContext)

/-- What `clean` returns. -/
structure Cleaned (t : Text) : Prop where
  trimmed : Trimmed t
  separator : ';' ∉ t
  quote : '\x27' ∉ t
  comment : hasPair '-' '-' t = false ∧ hasPair '/' '*' t = false

theorem cleaned_of_clean {sql t : Text} (h : clean sql = .ok t) : Cleaned t := by
  unfold clean at h
  simp only [require, raiseUnless_bind] at h
  obtain ⟨-, h1, h2, h3, ht⟩ := h
  generalize hc : strip sql = c at *
  have htrim : Trimmed c := hc ▸ trimmed_strip sql
  obtain rfl : _ = t := by simpa [pure, Except.pure] using ht
  refine ⟨?_, by simpa using h1, by simpa using h2, by simpa using h3⟩
  split
  · exact ⟨head_of_isPrefix ((List.rdropWhile_prefix _ _).trans (List.dropLast_prefix c)) htrim.1, last_rdropWhile _ _⟩
  · exact htrim

theorem Cleaned.last {t : Text} (h : Cleaned t) : t.getLast? ≠ some ';' :=
  fun hl => h.separator (List.mem_of_getLast? hl)

/-- A clean text is left as it is. -/
theorem Cleaned.clean_eq {t : Text} (h : Cleaned t) (hne : t ≠ []) : clean t = .ok t := by
  unfold clean
  rw [h.trimmed.strip_eq]
  simp [require, raiseUnless, h.last, hne, h.separator, h.quote, h.comment, bind, Except.bind, pure, Except.pure]

theorem Cleaned.trim_eq {t : Text} (h : Cleaned t) : Server.trim t = t := by
  rw [Server.trim, h.trimmed.strip_eq, if_neg h.last]

/-! ## Agreement -/

variable {U : Unicode}

/-- The server forbids nothing that the guardrail allows. -/
theorem forbiddenKeywords_subset : ∀ k ∈ Server.forbiddenKeywords, k ∈ forbiddenKeywords := by decide

theorem checkSelect_ok {t : Text} (h : checkSelect U t = .ok ()) :
    (matchStart (isWord U) startsSelectPattern t).isSome ∧ search (isWord U) forbiddenPattern t = none := by
  unfold checkSelect at h
  simp only [require, raiseUnless_bind] at h
  obtain ⟨-, hstart, hforbidden⟩ := h
  refine ⟨hstart, ?_⟩
  split at hforbidden
  · simp at hforbidden
  · assumption

theorem matchStart_select_nil : matchStart (isWord U) startsSelectPattern [] = none := rfl

/-- The server lets a clean text pass that the guardrail lets pass. -/
theorem server_accepts {t : Text} (hc : Cleaned t) (hne : t ≠ []) (h : checkSelect U t = .ok ()) :
    Server.validateSql U t = .ok t := by
  obtain ⟨hstart, hforbidden⟩ := checkSelect_ok h
  refine Server.accepted_iff.mpr ⟨hc.trim_eq.symm, ?_, hc.separator, hc.comment, hstart, ?_⟩
  · rwa [hc.trimmed.strip_eq]
  · exact search_keywords_mono forbiddenKeywords_subset hforbidden

/-- **An approved text is approved again, and the server runs it as it is**, within the bounds of the server. -/
theorem validators_agree (U : Unicode) {sql s : Text} {context : MetadataContext} (h : validate U sql context = .ok s)
    (context' : MetadataContext) : validate U s context' = .ok s ∧ Server.validateSql U s = .ok s ∧
      Server.validateInput Agent.queryTimeoutSeconds Agent.maximumRows = .ok () ∧
      Server.checks U s Agent.queryTimeoutSeconds Agent.maximumRows = .ok s := by
  obtain ⟨hclean, topMatch, d, outs, p, i, hp⟩ := validate_ok_iff.mp h
  have hc := cleaned_of_clean hclean
  have hne : s ≠ [] := by
    rintro rfl
    have := (checkSelect_ok hp.select).1
    rw [matchStart_select_nil] at this
    simp at this
  have hserver := server_accepts hc hne hp.select
  have hbounds : Server.validateInput Agent.queryTimeoutSeconds Agent.maximumRows = .ok () := by
    rw [Server.validateInput_ok]
    decide
  refine ⟨validate_ok_iff.mpr ⟨hc.clean_eq hne, topMatch, d, outs, p, i, hp⟩, hserver, hbounds, ?_⟩
  exact Server.checks_ok.mpr ⟨Server.validateInput_ok.mp hbounds, hserver⟩

theorem validators_agree_oneJoin : Server.validateSql .small oneJoin = .ok oneJoin :=
  (validators_agree .small validate_oneJoin {}).2.1

end DataAgent.Guardrail
