import Mathlib.Data.List.Basic
import Mathlib.Tactic.Common

/-!
# JSON text and how far it determines its value

A JSON tree rendered the way common serialisers do it: `", "` and `": "` as
separators, every character outside printable ASCII written as an escape, a
number written as whatever token its owner chose. Two facts about that text
are what a reader of it can rely on.

It is unambiguous: a rendered tree followed by anything that cannot continue a
number determines the tree and the rest (`render_inj`). The proof reads one
value off the front, so it needs no parser and no fuel.

It balances its quotes: scanned from outside a string it ends outside a string
and meets nothing but structure, digits and literals on the way
(`scan_render`). So a rendered tree is never the tail of another one that
starts after a character only strings may hold (`scan_no_split`), which is
what makes it safe to find by looking for a separator from the right.
-/

namespace JsonText

/-- The characters a number may be written with. -/
def tokenChar (c : Char) : Bool :=
  c.isDigit || c = '-' || c = '+' || c = '.' || c = 'e'

/-- A number as it is written: some token characters, and at least one. -/
structure Token where
  text : List Char
  nonempty : text ≠ []
  chars : ∀ c ∈ text, tokenChar c = true
  deriving DecidableEq

inductive Json where
  | null
  | bool (b : Bool)
  | num (t : Token)
  | str (s : String)
  | arr (xs : List Json)
  | obj (ms : List (String × Json))

/-! ## Strings -/

/-- A 16-bit code unit as four lower-case hexadecimal digits. -/
def hex4 (n : Nat) : List Char :=
  [Nat.digitChar (n / 4096 % 16), Nat.digitChar (n / 256 % 16),
    Nat.digitChar (n / 16 % 16), Nat.digitChar (n % 16)]

/-- One character of a string literal, escaped to ASCII. A character beyond
the basic plane takes two `\u` escapes, its surrogate pair. -/
def escapeChar (c : Char) : List Char :=
  if c = '"' then ['\\', '"']
  else if c = '\\' then ['\\', '\\']
  else if c = '\n' then ['\\', 'n']
  else if c = '\r' then ['\\', 'r']
  else if c = '\t' then ['\\', 't']
  else if c = '\x08' then ['\\', 'b']
  else if c = '\x0c' then ['\\', 'f']
  else if 32 ≤ c.toNat ∧ c.toNat ≤ 126 then [c]
  else if c.toNat < 65536 then '\\' :: 'u' :: hex4 c.toNat
  else
    '\\' :: 'u' :: hex4 (55296 + (c.toNat - 65536) / 1024) ++
      '\\' :: 'u' :: hex4 (56320 + (c.toNat - 65536) % 1024)

def escape (s : List Char) : List Char := s.flatMap escapeChar

def quote (s : String) : List Char := '"' :: (escape s.toList ++ ['"'])

def hexVal (c : Char) : Nat :=
  if c.isDigit then c.toNat - 48 else c.toNat - 87

def hexVal4 (a b c d : Char) : Nat :=
  hexVal a * 4096 + hexVal b * 256 + hexVal c * 16 + hexVal d

/-- Reads one escaped character back off the front of a text. -/
def readChar : List Char → Option (Char × List Char)
  | '\\' :: 'u' :: a :: b :: c :: d :: r =>
      if 55296 ≤ hexVal4 a b c d ∧ hexVal4 a b c d < 56320 then
        match r with
        | '\\' :: 'u' :: a' :: b' :: c' :: d' :: r' =>
            some (Char.ofNat (65536 + (hexVal4 a b c d - 55296) * 1024 +
              (hexVal4 a' b' c' d' - 56320)), r')
        | _ => none
      else some (Char.ofNat (hexVal4 a b c d), r)
  | '\\' :: '"' :: r => some ('"', r)
  | '\\' :: '\\' :: r => some ('\\', r)
  | '\\' :: 'n' :: r => some ('\n', r)
  | '\\' :: 'r' :: r => some ('\r', r)
  | '\\' :: 't' :: r => some ('\t', r)
  | '\\' :: 'b' :: r => some ('\x08', r)
  | '\\' :: 'f' :: r => some ('\x0c', r)
  | '\\' :: _ => none
  | c :: r => some (c, r)
  | [] => none

theorem hexVal_digitChar : ∀ d < 16, hexVal (Nat.digitChar d) = d := by decide

theorem hexVal4_hex4 {n : Nat} (hn : n < 65536) :
    hexVal4 (Nat.digitChar (n / 4096 % 16)) (Nat.digitChar (n / 256 % 16))
      (Nat.digitChar (n / 16 % 16)) (Nat.digitChar (n % 16)) = n := by
  rw [hexVal4, hexVal_digitChar _ (Nat.mod_lt _ (by omega)),
    hexVal_digitChar _ (Nat.mod_lt _ (by omega)),
    hexVal_digitChar _ (Nat.mod_lt _ (by omega)),
    hexVal_digitChar _ (Nat.mod_lt _ (by omega))]
  omega

/-- A character is a Unicode scalar value: no surrogate, below `0x110000`. -/
theorem toNat_scalar (c : Char) :
    c.toNat < 55296 ∨ (57343 < c.toNat ∧ c.toNat < 1114112) := c.valid

/-- What an escape is: a letter behind a backslash that reads back, the character itself,
or one or two `\u` escapes. -/
theorem escapeChar_cases (c : Char) :
    (∃ e, escapeChar c = ['\\', e] ∧ e ∈ ['"', '\\', 'n', 'r', 't', 'b', 'f'] ∧
      ∀ r, readChar ('\\' :: e :: r) = some (c, r)) ∨
    (escapeChar c = [c] ∧ c ≠ '"' ∧ c ≠ '\\') ∨
    (escapeChar c = '\\' :: 'u' :: hex4 c.toNat ∧ c.toNat < 65536) ∨
    (escapeChar c = '\\' :: 'u' :: hex4 (55296 + (c.toNat - 65536) / 1024) ++
      '\\' :: 'u' :: hex4 (56320 + (c.toNat - 65536) % 1024) ∧ 65536 ≤ c.toNat) := by
  by_cases short : c ∈ ['"', '\\', '\n', '\r', '\t', '\x08', '\x0c']
  · simp only [List.mem_cons, List.not_mem_nil, or_false] at short
    rcases short with rfl | rfl | rfl | rfl | rfl | rfl | rfl
    all_goals exact .inl ⟨_, rfl, by decide, fun _ => rfl⟩
  simp only [List.mem_cons, List.not_mem_nil, or_false, not_or] at short
  obtain ⟨hq, hb, hn, hr, ht, hbs, hff⟩ := short
  rw [escapeChar, if_neg hq, if_neg hb, if_neg hn, if_neg hr, if_neg ht, if_neg hbs, if_neg hff]
  by_cases ascii : 32 ≤ c.toNat ∧ c.toNat ≤ 126
  · rw [if_pos ascii]
    exact .inr (.inl ⟨rfl, hq, hb⟩)
  rw [if_neg ascii]
  by_cases hbmp : c.toNat < 65536
  · rw [if_pos hbmp]
    exact .inr (.inr (.inl ⟨rfl, hbmp⟩))
  · rw [if_neg hbmp]
    exact .inr (.inr (.inr ⟨rfl, Nat.le_of_not_lt hbmp⟩))

theorem readChar_plain {c : Char} (hb : c ≠ '\\') (r : List Char) :
    readChar (c :: r) = some (c, r) := by
  rw [readChar.eq_def]
  split <;> simp_all

theorem readChar_escapeChar (c : Char) (r : List Char) :
    readChar (escapeChar c ++ r) = some (c, r) := by
  have hs := toNat_scalar c
  rcases escapeChar_cases c with ⟨e, he, -, reads⟩ | ⟨he, -, hb⟩ | ⟨he, hbmp⟩ | ⟨he, hbmp⟩ <;>
    rw [he]
  · exact reads r
  · exact readChar_plain hb r
  · have hv := hexVal4_hex4 hbmp
    have hns : ¬ (55296 ≤ c.toNat ∧ c.toNat < 56320) := by omega
    simp only [hex4, List.cons_append, List.nil_append, readChar, hv]
    rw [if_neg hns, Char.ofNat_toNat]
  · have hhi : 55296 + (c.toNat - 65536) / 1024 < 56320 := by omega
    have hlo : 56320 + (c.toNat - 65536) % 1024 < 65536 := by omega
    have hv := hexVal4_hex4 (Nat.lt_trans hhi (by omega))
    have hv' := hexVal4_hex4 hlo
    simp only [hex4, List.cons_append, List.nil_append, readChar, hv, hv']
    rw [if_pos ⟨by omega, hhi⟩]
    have hsum : 65536 + (55296 + (c.toNat - 65536) / 1024 - 55296) * 1024 +
        (56320 + (c.toNat - 65536) % 1024 - 56320) = c.toNat := by omega
    rw [hsum, Char.ofNat_toNat]

theorem escapeChar_head (c : Char) :
    ∃ h t, escapeChar c = h :: t ∧ h ≠ '"' := by
  rcases escapeChar_cases c with ⟨e, he, -⟩ | ⟨he, hq, -⟩ | ⟨he, -⟩ | ⟨he, -⟩
  · exact ⟨_, _, he, by decide⟩
  · exact ⟨_, _, he, hq⟩
  · exact ⟨_, _, he, by decide⟩
  · exact ⟨_, _, he, by decide⟩

theorem escape_cons (c : Char) (s : List Char) :
    escape (c :: s) = escapeChar c ++ escape s := by
  rw [escape, List.flatMap_cons, escape]

/-- The closing quote ends the literal, and the literal determines the
string. -/
theorem escape_inj {s t x y : List Char}
    (h : escape s ++ '"' :: x = escape t ++ '"' :: y) : s = t ∧ x = y := by
  induction s generalizing t with
  | nil =>
      cases t with
      | nil => exact ⟨rfl, (List.cons.inj h).2⟩
      | cons d t =>
          obtain ⟨e, l, he, hq⟩ := escapeChar_head d
          rw [escape_cons, he] at h
          exact absurd (List.cons.inj h).1.symm hq
  | cons c s ih =>
      cases t with
      | nil =>
          obtain ⟨e, l, he, hq⟩ := escapeChar_head c
          rw [escape_cons, he] at h
          exact absurd (List.cons.inj h).1 hq
      | cons d t =>
          rw [escape_cons, escape_cons, List.append_assoc, List.append_assoc] at h
          have hread := congrArg readChar h
          rw [readChar_escapeChar, readChar_escapeChar] at hread
          injection hread with hread
          obtain ⟨hcd, hrest⟩ := Prod.mk.inj hread
          obtain ⟨hst, hxy⟩ := ih hrest
          exact ⟨by rw [hcd, hst], hxy⟩

theorem quote_inj {s t : String} {x y : List Char}
    (h : quote s ++ x = quote t ++ y) : s = t ∧ x = y := by
  simp only [quote, List.cons_append, List.append_assoc, List.nil_append,
    List.cons.injEq, true_and] at h
  obtain ⟨hst, hxy⟩ := escape_inj h
  exact ⟨String.toList_inj.mp hst, hxy⟩

/-! ## Trees -/

mutual

def render : Json → List Char
  | .null => ['n', 'u', 'l', 'l']
  | .bool true => ['t', 'r', 'u', 'e']
  | .bool false => ['f', 'a', 'l', 's', 'e']
  | .num t => t.text
  | .str s => quote s
  | .arr [] => ['[', ']']
  | .arr (x :: xs) => '[' :: (render x ++ renderRest xs)
  | .obj [] => ['{', '}']
  | .obj ((k, v) :: ms) =>
      '{' :: (quote k ++ ':' :: ' ' :: (render v ++ renderMembers ms))

/-- What follows an array's first element. -/
def renderRest : List Json → List Char
  | [] => [']']
  | x :: xs => ',' :: ' ' :: (render x ++ renderRest xs)

/-- What follows an object's first member. -/
def renderMembers : List (String × Json) → List Char
  | [] => ['}']
  | (k, v) :: ms =>
      ',' :: ' ' :: (quote k ++ ':' :: ' ' :: (render v ++ renderMembers ms))

end

/-- Nothing that could continue a number comes next. -/
def EndsToken (l : List Char) : Prop := ∀ c ∈ l.head?, tokenChar c = false

theorem endsToken_nil : EndsToken [] := by
  intro c hc
  cases hc

theorem endsToken_cons {c : Char} {l : List Char} (h : tokenChar c = false) :
    EndsToken (c :: l) := by
  intro d hd
  cases hd
  exact h

theorem endsToken_renderRest (xs : List Json) (l : List Char) :
    EndsToken (renderRest xs ++ l) := by
  cases xs <;> exact endsToken_cons (by decide)

theorem endsToken_renderMembers (ms : List (String × Json)) (l : List Char) :
    EndsToken (renderMembers ms ++ l) := by
  cases ms <;> exact endsToken_cons (by decide)

theorem token_inj {s t x y : List Char} (hs : ∀ c ∈ s, tokenChar c = true)
    (ht : ∀ c ∈ t, tokenChar c = true) (hx : EndsToken x) (hy : EndsToken y)
    (h : s ++ x = t ++ y) : s = t ∧ x = y := by
  induction s generalizing t with
  | nil =>
      cases t with
      | nil => exact ⟨rfl, h⟩
      | cons d t =>
          have hd : tokenChar d = false := by
            have : x = d :: (t ++ y) := h
            exact hx d (by rw [this]; rfl)
          exact absurd (ht d List.mem_cons_self) (by rw [hd]; decide)
  | cons c s ih =>
      cases t with
      | nil =>
          have hc : tokenChar c = false := by
            have : y = c :: (s ++ x) := h.symm
            exact hy c (by rw [this]; rfl)
          exact absurd (hs c List.mem_cons_self) (by rw [hc]; decide)
      | cons d t =>
          obtain ⟨hcd, htail⟩ := List.cons.inj h
          obtain ⟨hst, hxy⟩ := ih (fun e he => hs e (List.mem_cons_of_mem _ he))
            (fun e he => ht e (List.mem_cons_of_mem _ he)) htail
          exact ⟨by rw [hcd, hst], hxy⟩

/-- What kind of value a text starting with this character is. -/
def leadTag (c : Char) : Nat :=
  if c = 'n' then 0 else if c = 't' then 1 else if c = 'f' then 2
  else if c = '"' then 3 else if c = '[' then 4 else if c = '{' then 5 else 6

def Json.tag : Json → Nat
  | .null => 0
  | .bool true => 1
  | .bool false => 2
  | .str _ => 3
  | .arr _ => 4
  | .obj _ => 5
  | .num _ => 6

theorem leadTag_tokenChar {c : Char} (h : tokenChar c = true) : leadTag c = 6 := by
  unfold leadTag
  repeat' split
  all_goals first
    | rfl
    | (subst_vars; exact absurd h (by decide))

theorem render_lead (a : Json) : ∃ c l, render a = c :: l ∧ leadTag c = a.tag := by
  rcases a with _ | (_ | _) | t | s | (_ | ⟨x, xs⟩) | (_ | ⟨⟨k, v⟩, ms⟩)
  case num =>
    obtain ⟨c, l, hl⟩ := List.exists_cons_of_ne_nil t.nonempty
    refine ⟨c, l, by rw [render, hl], ?_⟩
    exact leadTag_tokenChar (t.chars c (by rw [hl]; exact List.mem_cons_self))
  all_goals
    rw [render]
    first
      | exact ⟨_, _, rfl, by decide⟩
      | exact ⟨_, _, rfl, rfl⟩

theorem tag_eq_of_render {a b : Json} {x y : List Char}
    (h : render a ++ x = render b ++ y) : a.tag = b.tag := by
  obtain ⟨c, l, hl, hc⟩ := render_lead a
  obtain ⟨d, m, hm, hd⟩ := render_lead b
  rw [hl, hm] at h
  rw [← hc, ← hd, (List.cons.inj h).1]

theorem render_ne_cons {a : Json} {x y : List Char} {c : Char}
    (hc : leadTag c = 6) (hd : tokenChar c = false) :
    render a ++ x ≠ c :: y := by
  intro h
  cases a with
  | num t =>
      obtain ⟨d, l, hl⟩ := List.exists_cons_of_ne_nil t.nonempty
      rw [render, hl] at h
      have hdc : d = c := (List.cons.inj h).1
      have := t.chars d (by rw [hl]; exact List.mem_cons_self)
      rw [hdc, hd] at this
      exact absurd this (by decide)
  | _ =>
      obtain ⟨d, l, hl, ht⟩ := render_lead _
      rw [hl] at h
      rw [(List.cons.inj h).1, hc] at ht
      revert ht
      first
        | decide
        | (simp only [Json.tag]; decide)
        | (rename_i b; cases b <;> decide)

mutual

/-- A rendered tree, and what follows it, are determined by the text. -/
theorem render_inj : ∀ (a b : Json) {x y : List Char}, EndsToken x →
    EndsToken y → render a ++ x = render b ++ y → a = b ∧ x = y
  | a, b, x, y, hx, hy, h => by
      have htag := tag_eq_of_render h
      match a, b, htag with
      | .null, .null, _ => exact ⟨rfl, by simpa [render] using h⟩
      | .bool true, .bool true, _ => exact ⟨rfl, by simpa [render] using h⟩
      | .bool false, .bool false, _ => exact ⟨rfl, by simpa [render] using h⟩
      | .num s, .num t, _ =>
          rw [render, render] at h
          obtain ⟨hst, hxy⟩ := token_inj s.chars t.chars hx hy h
          exact ⟨by rw [show s = t from by cases s; cases t; simp_all], hxy⟩
      | .str s, .str t, _ =>
          rw [render, render] at h
          obtain ⟨hst, hxy⟩ := quote_inj h
          exact ⟨by rw [hst], hxy⟩
      | .arr [], .arr [], _ => exact ⟨rfl, by simpa [render] using h⟩
      | .arr [], .arr (_ :: _), _ =>
          simp only [render, List.cons_append, List.append_assoc,
            List.cons.injEq, true_and] at h
          exact absurd h.symm (render_ne_cons (by decide) (by decide))
      | .arr (_ :: _), .arr [], _ =>
          simp only [render, List.cons_append, List.append_assoc,
            List.cons.injEq, true_and] at h
          exact absurd h (render_ne_cons (by decide) (by decide))
      | .arr (u :: us), .arr (v :: vs), _ =>
          simp only [render, List.cons_append, List.append_assoc,
            List.cons.injEq, true_and] at h
          obtain ⟨huv, hrest⟩ := render_inj u v (endsToken_renderRest us x)
            (endsToken_renderRest vs y) h
          obtain ⟨husvs, hxy⟩ := renderRest_inj us vs hrest
          exact ⟨by rw [huv, husvs], hxy⟩
      | .obj [], .obj [], _ => exact ⟨rfl, by simpa [render] using h⟩
      | .obj [], .obj ((_, _) :: _), _ => simp [render, quote] at h
      | .obj ((_, _) :: _), .obj [], _ => simp [render, quote] at h
      | .obj ((k, u) :: us), .obj ((l, v) :: vs), _ =>
          simp only [render, List.cons_append, List.append_assoc,
            List.cons.injEq, true_and] at h
          obtain ⟨hkl, hval⟩ := quote_inj h
          simp only [List.cons.injEq, true_and] at hval
          obtain ⟨huv, hrest⟩ := render_inj u v (endsToken_renderMembers us x)
            (endsToken_renderMembers vs y) hval
          obtain ⟨husvs, hxy⟩ := renderMembers_inj us vs hrest
          exact ⟨by rw [hkl, huv, husvs], hxy⟩

theorem renderRest_inj : ∀ (us vs : List Json) {x y : List Char},
    renderRest us ++ x = renderRest vs ++ y → us = vs ∧ x = y
  | [], [], _, _, h => ⟨rfl, by simpa [renderRest] using h⟩
  | [], _ :: _, _, _, h => by simp [renderRest] at h
  | _ :: _, [], _, _, h => by simp [renderRest] at h
  | u :: us, v :: vs, x, y, h => by
      simp only [renderRest, List.cons_append, List.append_assoc,
        List.cons.injEq, true_and] at h
      obtain ⟨huv, hrest⟩ := render_inj u v (endsToken_renderRest us x)
        (endsToken_renderRest vs y) h
      obtain ⟨husvs, hxy⟩ := renderRest_inj us vs hrest
      exact ⟨by rw [huv, husvs], hxy⟩

theorem renderMembers_inj : ∀ (us vs : List (String × Json)) {x y : List Char},
    renderMembers us ++ x = renderMembers vs ++ y → us = vs ∧ x = y
  | [], [], _, _, h => ⟨rfl, by simpa [renderMembers] using h⟩
  | [], (_, _) :: _, _, _, h => by simp [renderMembers] at h
  | (_, _) :: _, [], _, _, h => by simp [renderMembers] at h
  | (k, u) :: us, (l, v) :: vs, x, y, h => by
      simp only [renderMembers, List.cons_append, List.append_assoc,
        List.cons.injEq, true_and] at h
      obtain ⟨hkl, hval⟩ := quote_inj h
      simp only [List.cons.injEq, true_and] at hval
      obtain ⟨huv, hrest⟩ := render_inj u v (endsToken_renderMembers us x)
        (endsToken_renderMembers vs y) hval
      obtain ⟨husvs, hxy⟩ := renderMembers_inj us vs hrest
      exact ⟨by rw [hkl, huv, husvs], hxy⟩

end

theorem render_injective : Function.Injective render := by
  intro a b h
  exact (render_inj a b endsToken_nil endsToken_nil (by rw [h])).1

/-! ## Quotes -/

/-- Where a reader of the text stands with respect to string literals. -/
inductive QuoteState where
  | outside
  | inside
  | escaped
  | bad
  deriving DecidableEq

/-- What a rendered tree holds outside its strings besides quotes. -/
def outsideChar (c : Char) : Bool :=
  tokenChar c || "[]{}:, nultrefas".toList.contains c

/-- What may follow a backslash. -/
def escapee (c : Char) : Bool := "\"\\nrtbfu".toList.contains c

def QuoteState.step (q : QuoteState) (c : Char) : QuoteState :=
  match q with
  | .outside =>
      if c = '"' then .inside else if outsideChar c then .outside else .bad
  | .inside =>
      if c = '"' then .outside else if c = '\\' then .escaped else .inside
  | .escaped => if escapee c then .inside else .bad
  | .bad => .bad

def scan (q : QuoteState) (l : List Char) : QuoteState := l.foldl .step q

theorem scan_append (q : QuoteState) (l m : List Char) :
    scan q (l ++ m) = scan (scan q l) m := List.foldl_append

theorem scan_cons (q : QuoteState) (c : Char) (l : List Char) :
    scan q (c :: l) = scan (q.step c) l := rfl

theorem step_outside {c : Char} (hq : c ≠ '"') : QuoteState.step .outside c =
    if outsideChar c then .outside else .bad := if_neg hq

theorem step_inside {c : Char} (hq : c ≠ '"') (hb : c ≠ '\\') :
    QuoteState.step .inside c = .inside := (if_neg hq).trans (if_neg hb)

theorem scan_bad (l : List Char) : scan .bad l = .bad := by
  induction l with
  | nil => rfl
  | cons c l ih => rw [scan_cons]; exact ih

theorem step_digitChar : ∀ d < 16,
    QuoteState.step .inside (Nat.digitChar d) = .inside := by decide

theorem scan_hex4 (n : Nat) :
    scan .inside ('\\' :: 'u' :: hex4 n) = .inside := by
  have h := fun k => step_digitChar (k % 16) (Nat.mod_lt k (by omega))
  show scan .inside (hex4 n) = .inside
  simp only [hex4, scan, List.foldl_cons, List.foldl_nil, h]

theorem scan_escapeChar (c : Char) : scan .inside (escapeChar c) = .inside := by
  rcases escapeChar_cases c with ⟨e, he, letter, -⟩ | ⟨he, hq, hb⟩ | ⟨he, -⟩ | ⟨he, -⟩ <;> rw [he]
  · have escapes : ['"', '\\', 'n', 'r', 't', 'b', 'f'].all
        (fun e => QuoteState.step .escaped e = .inside) = true := by decide
    exact of_decide_eq_true (List.all_eq_true.mp escapes e letter)
  · exact step_inside hq hb
  · exact scan_hex4 _
  · rw [scan_append, scan_hex4, scan_hex4]

theorem scan_quote (s : String) : scan .outside (quote s) = .outside := by
  have hbody : ∀ l : List Char, scan .inside (escape l) = .inside := by
    intro l
    induction l with
    | nil => rfl
    | cons c l ih => rw [escape_cons, scan_append, scan_escapeChar, ih]
  rw [quote, scan_cons, scan_append]
  show scan (scan .inside (escape s.toList)) ['"'] = .outside
  rw [hbody]
  rfl

theorem scan_token {l : List Char} (h : ∀ c ∈ l, tokenChar c = true) :
    scan .outside l = .outside := by
  induction l with
  | nil => rfl
  | cons c l ih =>
      have hc := h c List.mem_cons_self
      have hq : c ≠ '"' := by rintro rfl; revert hc; decide
      rw [scan_cons, QuoteState.step, if_neg hq,
        if_pos (by rw [outsideChar, hc, Bool.true_or])]
      exact ih fun d hd => h d (List.mem_cons_of_mem _ hd)

mutual

/-- A rendered tree, read from outside a string, ends outside a string. -/
theorem scan_render : ∀ a : Json, scan .outside (render a) = .outside
  | .null => by rw [render]; decide
  | .bool true => by rw [render]; decide
  | .bool false => by rw [render]; decide
  | .num t => by rw [render]; exact scan_token t.chars
  | .str s => by rw [render]; exact scan_quote s
  | .arr [] => by rw [render]; decide
  | .arr (x :: xs) => by
      rw [render, scan_cons, scan_append]
      show scan (scan .outside (render x)) (renderRest xs) = .outside
      rw [scan_render x, scan_renderRest xs]
  | .obj [] => by rw [render]; decide
  | .obj ((k, v) :: ms) => by
      rw [render, scan_cons, scan_append]
      show scan (scan .outside (quote k)) _ = .outside
      rw [scan_quote, scan_cons, scan_cons, scan_append]
      show scan (scan .outside (render v)) (renderMembers ms) = .outside
      rw [scan_render v, scan_renderMembers ms]

theorem scan_renderRest : ∀ xs : List Json,
    scan .outside (renderRest xs) = .outside
  | [] => by rw [renderRest]; decide
  | x :: xs => by
      rw [renderRest, scan_cons, scan_cons, scan_append]
      show scan (scan .outside (render x)) (renderRest xs) = .outside
      rw [scan_render x, scan_renderRest xs]

theorem scan_renderMembers : ∀ ms : List (String × Json),
    scan .outside (renderMembers ms) = .outside
  | [] => by rw [renderMembers]; decide
  | (k, v) :: ms => by
      rw [renderMembers, scan_cons, scan_cons, scan_append]
      show scan (scan .outside (quote k)) _ = .outside
      rw [scan_quote, scan_cons, scan_cons, scan_append]
      show scan (scan .outside (render v)) (renderMembers ms) = .outside
      rw [scan_render v, scan_renderMembers ms]

end

/-- One text cannot close its strings both when read from outside one and when
read from inside one. The two readings stay on opposite sides of every quote,
and a backslash, the only thing that could bring them together, is met by one
of them outside. -/
theorem scan_opposite (l : List Char) :
    scan .outside l = .outside → scan .inside l ≠ .outside := by
  induction l with
  | nil => intro _ h; exact absurd h (by decide)
  | cons c l ih =>
      intro ho hi
      rw [scan_cons] at ho hi
      by_cases hq : c = '"'
      · subst hq
        exact ih hi ho
      · by_cases hout : outsideChar c
        · have hb : c ≠ '\\' := by rintro rfl; revert hout; decide
          rw [step_outside hq, if_pos hout] at ho
          rw [step_inside hq hb] at hi
          exact ih ho hi
        · rw [step_outside hq, if_neg hout, scan_bad] at ho
          exact absurd ho (by decide)

/-- A rendered tree does not contain, after a character that only strings may
hold, the text of another rendered tree as its tail. -/
theorem scan_no_split {a b : Json} {p : List Char} {c : Char}
    (hout : outsideChar c = false) (hesc : escapee c = false) (hq : c ≠ '"')
    (hb : c ≠ '\\') : render a ≠ p ++ c :: render b := by
  intro h
  have ha := scan_render a
  rw [h, scan_append, scan_cons] at ha
  cases hs : scan .outside p with
  | inside =>
      rw [hs, step_inside hq hb] at ha
      exact scan_opposite _ (scan_render b) ha
  | outside =>
      rw [hs, step_outside hq, hout, if_neg (by decide), scan_bad] at ha
      exact absurd ha (by decide)
  | escaped =>
      have hbad : QuoteState.step .escaped c = .bad := if_neg (by simp [hesc])
      rw [hs, hbad, scan_bad] at ha
      exact absurd ha (by decide)
  | bad =>
      rw [hs] at ha
      exact absurd ((scan_bad _).symm.trans ha) (by decide)

/-- So a rendered tree can be told from what stands before it by the last such
character, whatever that is. -/
theorem append_cons_render_inj {a b : Json} {x y : List Char} {c : Char}
    (hout : outsideChar c = false) (hesc : escapee c = false) (hq : c ≠ '"')
    (hb : c ≠ '\\') (h : x ++ c :: render a = y ++ c :: render b) :
    x = y ∧ a = b := by
  rcases List.append_eq_append_iff.mp h with ⟨d, hy, hd⟩ | ⟨d, hx, hd⟩
  · cases d with
    | nil =>
        refine ⟨by rw [hy, List.append_nil], ?_⟩
        exact render_injective (List.cons.inj hd).2
    | cons e d =>
        exact absurd (List.cons.inj hd).2 (scan_no_split hout hesc hq hb)
  · cases d with
    | nil =>
        refine ⟨by rw [hx, List.append_nil], ?_⟩
        exact render_injective (List.cons.inj hd).2.symm
    | cons e d =>
        exact absurd (List.cons.inj hd).2 (scan_no_split hout hesc hq hb)

end JsonText
