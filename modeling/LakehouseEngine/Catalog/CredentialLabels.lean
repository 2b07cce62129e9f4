import Mathlib.Data.List.Infix
import Mathlib.Tactic.Common

/-!
# Redacting labelled credentials

For each known label, in turn, a cursor walks over the text; what follows the label up to the
next delimiter is replaced by a mask.
-/

namespace LakehouseEngine.Redaction

def redacted : List Char := "[REDACTED]".toList

/-- The characters a value ends at. -/
def delimiters : List Char := ['"', '\x27', ' ', '\n', ',', '&', '\r']

def patterns : List (List Char) :=
  ["access_key".toList, "secret_key".toList, "session_token".toList, "oauth_token".toList,
    "client_secret".toList, "s3.access-key-id".toList, "s3.secret-access-key".toList,
    "s3.session-token".toList, "Authorization".toList, "Bearer ".toList,
    "X-Amz-Security-Token".toList, "X-Amz-Credential".toList, "AWS_ACCESS_KEY_ID".toList,
    "AWS_SECRET_ACCESS_KEY".toList, "AWS_SESSION_TOKEN".toList, "account_key".toList,
    "sas_token".toList, "adls.account-key".toList, "adls.sas-token".toList,
    "azure_storage_access_key".toList, "azure_storage_sas_key".toList, "sig=".toList,
    "\"sas\":\"".toList]

/-- `str::find` -/
def find (pattern text : List Char) : Option ℕ :=
  (List.range (text.length + 1)).find? fun i => pattern <+: text.drop i

/-- Where the value that starts at `after` ends. -/
def valueEnd (result : List Char) (after : ℕ) : ℕ :=
  match (result.drop after).findIdx? delimiters.contains with
  | some i => after + i
  | none => result.length

/-- The `while let` loop of one label over the result so far, from the cursor on; `none` when
the fuel runs out. -/
def redactLabel (label : List Char) : ℕ → List Char → ℕ → Option (List Char)
  | 0, _, _ => none
  | fuel + 1, result, cursor =>
      match find (label.map Char.toLower) ((result.drop cursor).map Char.toLower) with
      | none => some result
      | some rel =>
          let idx := cursor + rel
          let after := idx + label.length
          let result := result.take idx ++ label ++ redacted ++ result.drop (valueEnd result after)
          let cursor := after + redacted.length
          if cursor ≥ result.length then some result else redactLabel label fuel result cursor

theorem le_of_find {pattern text : List Char} {i : ℕ} (found : find pattern text = some i) :
    i + pattern.length ≤ text.length := by
  have member := List.mem_range.mp (List.mem_of_find?_eq_some found)
  have starts := of_decide_eq_true (List.find?_some (p := fun i => pattern <+: text.drop i) found)
  have short := starts.length_le
  rw [List.length_drop] at short
  omega

theorem le_valueEnd {result : List Char} {after : ℕ} (within : after ≤ result.length) :
    after ≤ valueEnd result after := by
  unfold valueEnd
  split <;> omega

/-- A round masks a label and what is before the next delimiter, so the text after the cursor gets
shorter and its length bounds the rounds. -/
theorem redactLabel_isSome {label : List Char} (nonempty : label ≠ []) {fuel : ℕ}
    {result : List Char} {cursor : ℕ} (enough : result.length - cursor < fuel) :
    (redactLabel label fuel result cursor).isSome = true := by
  induction fuel generalizing result cursor with
  | zero => omega
  | succ fuel ih =>
      rw [redactLabel]
      cases found : find (label.map Char.toLower) ((result.drop cursor).map Char.toLower) with
      | none => rfl
      | some rel =>
          have within := le_of_find found
          simp only [List.length_map, List.length_drop] at within
          have positive := List.length_pos_iff.mpr nonempty
          have stop : cursor + rel + label.length ≤ valueEnd result (cursor + rel + label.length) :=
            le_valueEnd (by omega)
          dsimp only
          split
          · rfl
          · apply ih
            simp only [List.length_append, List.length_take, List.length_drop]
            omega

def redactLabels (labels : List (List Char)) (text : List Char) : Option (List Char) :=
  labels.foldlM (fun result label => redactLabel label (result.length + 1) result 0) text

theorem redactLabels_isSome {labels : List (List Char)} (nonempty : ∀ label ∈ labels, label ≠ [])
    (text : List Char) : (redactLabels labels text).isSome = true := by
  induction labels generalizing text with
  | nil => rfl
  | cons label labels ih =>
      have round : (redactLabel label (text.length + 1) text 0).isSome = true :=
        redactLabel_isSome (nonempty label List.mem_cons_self) (by omega)
      obtain ⟨result, run⟩ := Option.isSome_iff_exists.mp round
      have rest :=
        ih (fun other member => nonempty other (List.mem_cons_of_mem label member)) result
      rw [redactLabels] at rest ⊢
      rw [List.foldlM_cons, run]
      exact rest

def redactCredentials (text : List Char) : List Char :=
  (redactLabels patterns text).get (redactLabels_isSome (by decide) text)

end LakehouseEngine.Redaction
