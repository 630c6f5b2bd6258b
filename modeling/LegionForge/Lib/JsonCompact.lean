import LegionForge.Lib.JsonText

/-!
# JSON text without spaces

The same trees with `","` and `":"` as separators. Outside a string a comma or a colon is a
separator, so the spaces can be put back by a reader that knows whether it is inside one
(`spread`); what it makes of the compact text is the text with spaces (`spread_compact`),
which determines the tree. So the compact text determines it too.
-/

namespace JsonText

mutual

def compact : Json → List Char
  | .null => ['n', 'u', 'l', 'l']
  | .bool true => ['t', 'r', 'u', 'e']
  | .bool false => ['f', 'a', 'l', 's', 'e']
  | .num t => t.text
  | .str s => quote s
  | .arr [] => ['[', ']']
  | .arr (x :: xs) => '[' :: (compact x ++ compactRest xs)
  | .obj [] => ['{', '}']
  | .obj ((k, v) :: ms) => '{' :: (quote k ++ ':' :: (compact v ++ compactMembers ms))

def compactRest : List Json → List Char
  | [] => [']']
  | x :: xs => ',' :: (compact x ++ compactRest xs)

def compactMembers : List (String × Json) → List Char
  | [] => ['}']
  | (k, v) :: ms => ',' :: (quote k ++ ':' :: (compact v ++ compactMembers ms))

end

def separator (c : Char) : Bool := c = ',' || c = ':'

/-- Puts a space behind every separator outside a string. -/
def spread : QuoteState → List Char → List Char
  | _, [] => []
  | .outside, c :: rest =>
    if separator c then c :: ' ' :: spread .outside rest
    else c :: spread (QuoteState.step .outside c) rest
  | q, c :: rest => c :: spread (q.step c) rest

theorem spread_outside {c : Char} (plain : separator c = false) (rest : List Char) :
    spread .outside (c :: rest) = c :: spread (QuoteState.step .outside c) rest := by
  rw [spread, plain]
  rfl

theorem spread_inside (c : Char) (rest : List Char) :
    spread .inside (c :: rest) = c :: spread (QuoteState.step .inside c) rest := rfl

theorem spread_escaped (c : Char) (rest : List Char) :
    spread .escaped (c :: rest) = c :: spread (QuoteState.step .escaped c) rest := rfl

theorem spread_hex4 (n : Nat) (rest : List Char) :
    spread .inside ('\\' :: 'u' :: (hex4 n ++ rest)) =
      '\\' :: 'u' :: (hex4 n ++ spread .inside rest) := by
  have digit := fun k => step_digitChar (k % 16) (Nat.mod_lt k (by omega))
  rw [spread_inside]
  show '\\' :: spread .escaped ('u' :: _) = _
  rw [spread_escaped]
  show '\\' :: 'u' :: spread .inside (hex4 n ++ rest) = _
  simp only [hex4, List.cons_append, List.nil_append, spread_inside, digit]

theorem spread_escapeChar (c : Char) (rest : List Char) :
    spread .inside (escapeChar c ++ rest) = escapeChar c ++ spread .inside rest := by
  rcases escapeChar_cases c with ⟨e, he, letter, -⟩ | ⟨he, hq, hb⟩ | ⟨he, -⟩ | ⟨he, -⟩ <;> rw [he]
  · have escapes : ['"', '\\', 'n', 'r', 't', 'b', 'f'].all
        (fun e => QuoteState.step .escaped e = .inside) = true := by decide
    have back := of_decide_eq_true (List.all_eq_true.mp escapes e letter)
    show spread .inside ('\\' :: e :: rest) = '\\' :: e :: spread .inside rest
    rw [spread_inside]
    show '\\' :: spread .escaped (e :: rest) = _
    rw [spread_escaped, back]
  · show spread .inside (c :: rest) = c :: spread .inside rest
    rw [spread_inside, step_inside hq hb]
  · exact spread_hex4 _ rest
  · rw [List.append_assoc]
    show spread .inside ('\\' :: 'u' :: (hex4 _ ++ ('\\' :: 'u' :: (hex4 _ ++ rest)))) = _
    rw [spread_hex4, spread_hex4, List.append_assoc]
    rfl

theorem spread_quote (s : String) (rest : List Char) :
    spread .outside (quote s ++ rest) = quote s ++ spread .outside rest := by
  have body : ∀ l : List Char, spread .inside (escape l ++ '"' :: rest) =
      escape l ++ '"' :: spread .outside rest := by
    intro l
    induction l with
    | nil => rfl
    | cons c l ih => rw [escape_cons, List.append_assoc, spread_escapeChar, ih, List.append_assoc]
  rw [quote, List.cons_append, List.append_assoc, List.singleton_append,
    spread_outside (by decide)]
  show '"' :: spread .inside _ = _
  rw [body, List.cons_append, List.append_assoc]
  rfl

theorem spread_token {l : List Char} (chars : ∀ c ∈ l, tokenChar c = true) (rest : List Char) :
    spread .outside (l ++ rest) = l ++ spread .outside rest := by
  induction l with
  | nil => rfl
  | cons c l ih =>
    have token := chars c List.mem_cons_self
    have plain : separator c = false := by
      rw [separator, Bool.or_eq_false_iff]
      constructor <;> refine decide_eq_false ?_ <;> rintro rfl <;> revert token <;> decide
    have stays : QuoteState.step .outside c = .outside := by
      have one := scan_token (l := [c]) fun d hd => List.mem_singleton.mp hd ▸ token
      exact one
    rw [List.cons_append, spread_outside plain, stays,
      ih fun d hd => chars d (List.mem_cons_of_mem _ hd)]
    rfl

mutual

/-- With its spaces put back, the compact text is the other one. -/
theorem spread_compact : ∀ (a : Json) (rest : List Char),
    spread .outside (compact a ++ rest) = render a ++ spread .outside rest
  | .null, _ => rfl
  | .bool true, _ => rfl
  | .bool false, _ => rfl
  | .num t, rest => by
      rw [compact, render]
      exact spread_token t.chars rest
  | .str s, rest => by
      rw [compact, render]
      exact spread_quote s rest
  | .arr [], _ => rfl
  | .arr (x :: xs), rest => by
      rw [compact, render, List.cons_append, List.append_assoc, spread_outside (by decide)]
      show '[' :: spread .outside _ = _
      rw [spread_compact x, spread_compactRest xs, List.cons_append, List.append_assoc]
  | .obj [], _ => rfl
  | .obj ((k, v) :: ms), rest => by
      rw [compact, render, List.cons_append, List.append_assoc, spread_outside (by decide)]
      show '{' :: spread .outside (quote k ++ (':' :: (compact v ++ compactMembers ms) ++ rest)) = _
      rw [spread_quote, List.cons_append, List.append_assoc]
      show '{' :: (quote k ++ ':' :: ' ' :: spread .outside _) = _
      rw [spread_compact v, spread_compactMembers ms]
      simp only [List.cons_append, List.append_assoc]

theorem spread_compactRest : ∀ (xs : List Json) (rest : List Char),
    spread .outside (compactRest xs ++ rest) = renderRest xs ++ spread .outside rest
  | [], _ => rfl
  | x :: xs, rest => by
      rw [compactRest, renderRest, List.cons_append, List.append_assoc]
      show ',' :: ' ' :: spread .outside _ = _
      rw [spread_compact x, spread_compactRest xs]
      simp only [List.cons_append, List.append_assoc]

theorem spread_compactMembers : ∀ (ms : List (String × Json)) (rest : List Char),
    spread .outside (compactMembers ms ++ rest) = renderMembers ms ++ spread .outside rest
  | [], _ => rfl
  | (k, v) :: ms, rest => by
      rw [compactMembers, renderMembers, List.cons_append, List.append_assoc]
      show ',' :: ' ' :: spread .outside (quote k ++
        (':' :: (compact v ++ compactMembers ms) ++ rest)) = _
      rw [spread_quote, List.cons_append, List.append_assoc]
      show ',' :: ' ' :: (quote k ++ ':' :: ' ' :: spread .outside _) = _
      rw [spread_compact v, spread_compactMembers ms]
      simp only [List.cons_append, List.append_assoc]

end

theorem compact_injective : Function.Injective compact := by
  intro a b same
  have spaced := congrArg (spread .outside) same
  rw [← List.append_nil (compact a), ← List.append_nil (compact b), spread_compact,
    spread_compact] at spaced
  exact render_injective (List.append_cancel_right spaced)

end JsonText
