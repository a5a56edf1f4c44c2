import Mathlib.Data.List.Basic
import Mathlib.Data.List.TakeWhile

/-!
# Tokens

`strtok_r` takes one token after the other from a text.  The tokens are the pieces between
delimiters, without the empty ones.
-/

namespace MdsFormal.Library.Tokens

variable {α : Type} {isDelim : α → Bool} {text token rest : List α} {c : α}

/-- `strtok_r`: the next token and what is behind it. -/
def strtokR (isDelim : α → Bool) (text : List α) : Option (List α × List α) :=
  match text.dropWhile isDelim with
  | [] => none
  | c :: more =>
      some ((c :: more).takeWhile (!isDelim ·), ((c :: more).dropWhile (!isDelim ·)).tail)

/-- The pieces between delimiters that are not empty. -/
def tokens (isDelim : α → Bool) (text : List α) : List (List α) :=
  (text.splitOnP isDelim).filter (!·.isEmpty)

theorem tokens_nil : tokens isDelim [] = [] := by
  rw [tokens, List.splitOnP_nil]
  rfl

theorem tokens_cons_delim (hc : isDelim c = true) :
    tokens isDelim (c :: rest) = tokens isDelim rest := by
  have hsplit : (([] : List α) ++ c :: rest).splitOnP isDelim = _ :=
    List.splitOnP_append_cons [] rest hc
  rw [tokens, ← List.nil_append (c :: rest), hsplit, List.splitOnP_nil]
  rfl

theorem tokens_dropWhile : tokens isDelim (text.dropWhile isDelim) = tokens isDelim text := by
  induction text with
  | nil => rfl
  | cons c rest ih =>
      cases hc : isDelim c with
      | true => rw [List.dropWhile_cons_of_pos hc, ih, tokens_cons_delim hc]
      | false => rw [List.dropWhile_cons_of_neg (by rw [hc]; decide)]

theorem tokens_singleton (hne : token ≠ []) (htoken : ∀ c ∈ token, isDelim c = false) :
    tokens isDelim token = [token] := by
  cases token with
  | nil => exact absurd rfl hne
  | cons first more =>
      rw [tokens, List.splitOnP_eq_singleton htoken]
      rfl

theorem tokens_append (hne : token ≠ []) (htoken : ∀ c ∈ token, isDelim c = false)
    (hc : isDelim c = true) :
    tokens isDelim (token ++ c :: rest) = token :: tokens isDelim rest := by
  cases token with
  | nil => exact absurd rfl hne
  | cons first more =>
      rw [tokens, List.splitOnP_append_cons_of_forall_mem htoken c hc]
      rfl

/-- Up to the first delimiter there is one token, where the text does not start with one. -/
theorem tokens_cons (hc : isDelim c = false) :
    tokens isDelim (c :: rest) =
      (c :: rest).takeWhile (!isDelim ·) ::
        tokens isDelim ((c :: rest).dropWhile (!isDelim ·)).tail := by
  have hfirst : (!isDelim c) = true := by rw [hc]; rfl
  have hne : (c :: rest).takeWhile (!isDelim ·) ≠ [] := by
    rw [List.takeWhile_cons_of_pos (p := (!isDelim ·)) hfirst]
    exact List.cons_ne_nil _ _
  have htoken : ∀ byte ∈ (c :: rest).takeWhile (!isDelim ·), isDelim byte = false := by
    intro byte hbyte
    exact (Bool.not_eq_true' _).mp (List.mem_takeWhile_imp (p := (!isDelim ·)) hbyte)
  have hdelim := List.head?_dropWhile_not (!isDelim ·) (c :: rest)
  have hwhole := List.takeWhile_append_dropWhile (p := (!isDelim ·)) (l := c :: rest)
  generalize (c :: rest).takeWhile (!isDelim ·) = token at hne htoken hwhole
  generalize (c :: rest).dropWhile (!isDelim ·) = behind at hdelim hwhole
  rw [← hwhole]
  cases behind with
  | nil => rw [List.append_nil, tokens_singleton hne htoken, List.tail_nil, tokens_nil]
  | cons d behind => exact tokens_append hne htoken ((Bool.not_eq_false' _).mp hdelim)

/-- A token has only what the text has. -/
theorem subset_of_mem_tokens (htoken : token ∈ tokens isDelim text) : token ⊆ text := by
  induction hlen : text.length using Nat.strong_induction_on generalizing text with
  | _ n ih =>
      cases text with
      | nil =>
          rw [tokens_nil] at htoken
          cases htoken
      | cons c rest =>
          cases hc : isDelim c with
          | true =>
              rw [tokens_cons_delim hc] at htoken
              have hrest : token ⊆ rest := ih rest.length (hlen ▸ Nat.lt_succ_self _) htoken rfl
              exact List.Subset.trans hrest (List.subset_cons_self c rest)
          | false =>
              rw [tokens_cons hc] at htoken
              have hbehind := List.dropWhile_suffix (!isDelim ·) (l := c :: rest)
              rcases List.mem_cons.mp htoken with rfl | hlater
              · exact (List.takeWhile_prefix _).subset
              · have hshort : ((c :: rest).dropWhile (!isDelim ·)).tail.length < n := by
                  have hbehindLen := hbehind.length_le
                  rw [hlen] at hbehindLen
                  rw [List.length_tail]
                  rw [List.length_cons] at hlen
                  omega
                have hrest := ((List.tail_suffix _).trans hbehind).subset
                exact List.Subset.trans (ih _ hshort hlater rfl) hrest

/-- What one call gives: no token where there is none, and else the first one. -/
theorem strtokR_spec :
    match strtokR isDelim text with
    | none => tokens isDelim text = []
    | some (token, rest) =>
        tokens isDelim text = token :: tokens isDelim rest ∧ rest.length < text.length := by
  have hlen : (text.dropWhile isDelim).length ≤ text.length :=
    (List.dropWhile_suffix isDelim).length_le
  rw [strtokR, ← tokens_dropWhile]
  cases hdrop : text.dropWhile isDelim with
  | nil => exact tokens_nil
  | cons c more =>
      have hc : isDelim c = false := by
        have hhead := List.head?_dropWhile_not isDelim text
        rw [hdrop] at hhead
        exact hhead
      have hbehind : ((c :: more).dropWhile (!isDelim ·)).length ≤ more.length := by
        rw [List.dropWhile_cons_of_pos (p := (!isDelim ·)) (by rw [hc]; rfl)]
        exact (List.dropWhile_suffix _).length_le
      rw [hdrop, List.length_cons] at hlen
      refine ⟨tokens_cons hc, ?_⟩
      rw [List.length_tail]
      omega

/-- A token in front of a delimiter is the first one. -/
theorem strtokR_append (hne : token ≠ []) (htoken : ∀ c ∈ token, isDelim c = false)
    (hc : isDelim c = true) : strtokR isDelim (token ++ c :: rest) = some (token, rest) := by
  cases token with
  | nil => exact absurd rfl hne
  | cons first more =>
      have hfirst : ¬isDelim first = true := by
        rw [htoken first List.mem_cons_self]
        exact Bool.false_ne_true
      have hall : ∀ byte ∈ first :: more, (!isDelim byte) = true := fun byte hbyte => by
        rw [htoken byte hbyte]
        rfl
      have hstop : ¬(!isDelim c) = true := by
        rw [hc]
        exact Bool.false_ne_true
      rw [strtokR, List.cons_append, List.dropWhile_cons_of_neg hfirst]
      dsimp only
      rw [← List.cons_append, List.takeWhile_append_of_pos hall, List.dropWhile_append_of_pos hall,
        List.takeWhile_cons_of_neg (p := (!isDelim ·)) hstop,
        List.dropWhile_cons_of_neg (p := (!isDelim ·)) hstop, List.append_nil]
      rfl

end MdsFormal.Library.Tokens
