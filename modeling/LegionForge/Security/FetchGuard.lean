import LegionForge.Lib.Inet
import LegionForge.Lib.Stretch
import LegionForge.Security.FetchUrl

/-!
# Where an accepted URL leads

`validate_fetch_url` sees the texts of the addresses that the host resolves to. Every
address in a range that `_PRIVATE_IP_PATTERNS` names has a text that one of the patterns
matches (`isPrivateIp_listed`), so none of them is behind a URL that is accepted
(`accepted_unlisted`). A host that does not resolve is left to whoever fetches.
-/

namespace LegionForge.Security

open Regex Inet

/-- How the resolver answers, with the addresses by their numbers. -/
inductive Resolution where
  | addresses (as : List Address)
  | osError
  | valueError

/-- What `getaddrinfo` makes of it. -/
def Resolution.answer : Resolution → DnsAnswer
  | .addresses as => .addresses (as.map (·.text))
  | .osError => .osError
  | .valueError => .valueError

/-- What the patterns ask of the character tables: the digits are digits, and a character is
one of its own variants. -/
structure AddressTables (d : CharData) : Prop where
  digit : ∀ c : Char, c.isDigit = true → d.digit c = true
  itself : ∀ c, c ∈ d.variants c

/-- The ranges that the list of patterns names. -/
def listed : Address → Bool
  | .v4 a => a.internal
  | .v6 a => a.loopback || a.uniqueLocal || a.groups.head? = some 0xfe80

section
variable (env : UrlEnv)

/-- The host that is looked up. -/
def resolvedHost (url : String) : Option String :=
  (urlparse env url.toList).map fun parsed =>
    String.ofList (env.unicode.lower (parsed.hostname env))

def Accepted (resolve : String → Resolution) (url : String) : Prop :=
  validateFetchUrl env (fun host => (resolve host).answer) url = none

instance (resolve : String → Resolution) (url : String) : Decidable (Accepted env resolve url) :=
  inferInstanceAs (Decidable (_ = none))

/-- The host resolves, and to no address that does not lead outside. -/
def Guarded (resolve : String → Resolution) (url : String) : Prop :=
  Accepted env resolve url → ∃ host as, resolvedHost env url = some host ∧
    resolve host = .addresses as ∧ ∀ a ∈ as, a.internal = false

/-- Nothing in the URL itself is refused. -/
def TextPasses (url : String) : Prop := Accepted env (fun _ => .addresses []) url

end

/-! ## The patterns -/

section
variable {d : CharData} {ignoreCase : Bool}

theorem matchesStart_of_spans {p : Pattern} {w after : List Char}
    (spans : p.Spans d ignoreCase [] w after) :
    matchesStart d ignoreCase p (w ++ after) = true := by
  have some_end := List.ne_nil_of_mem spans
  simpa [matchesStart] using some_end

theorem spans_class (tables : AddressTables d) {items : List ClassItem} {c : Char}
    (holds : items.any (·.holds d c) = true) (before after : List Char) :
    (Pattern.set false items).Spans d ignoreCase before [c] after := by
  refine spans_set.mpr ⟨c, rfl, ?_⟩
  have holds : classHolds d ignoreCase items c = true := by
    rw [classHolds]
    split
    · exact List.any_eq_true.mpr ⟨c, tables.itself c, holds⟩
    · exact holds
  rw [holds]
  rfl

theorem spans_chr (tables : AddressTables d) (c : Char) (before after : List Char) :
    (chr c).Spans d ignoreCase before [c] after :=
  spans_class tables (by simp [ClassItem.holds]) before after

theorem spans_lit (tables : AddressTables d) (text : String) : ∀ before after : List Char,
    (lit text).Spans d ignoreCase before text.toList after := by
  unfold lit
  induction text.toList with
  | nil =>
    intro before after
    exact spans_empty.mpr rfl
  | cons c cs ih =>
    intro before after
    exact spans_seq.mpr ⟨[c], cs, rfl, spans_chr tables c _ _, ih _ _⟩

theorem spans_seqs_cons {p : Pattern} {ps : List Pattern} {before a b after : List Char}
    (first : p.Spans d ignoreCase before a (b ++ after))
    (rest : (seqs ps).Spans d ignoreCase (a.reverse ++ before) b after) :
    (seqs (p :: ps)).Spans d ignoreCase before (a ++ b) after :=
  spans_seq.mpr ⟨a, b, rfl, first, rest⟩

end

/-! ## The texts of the addresses -/

/-- The second octet of `172.16.0.0/12`, as it is written. -/
def twelveBits : List Char → Bool
  | [x, y] => (x = '1' && '6' ≤ y && y ≤ '9') || (x = '2' && y.isDigit) ||
      (x = '3' && (y = '0' || y = '1'))
  | _ => false

theorem twelveBits_decimal {n : UInt8} (low : 16 ≤ n) (high : n ≤ 31) :
    twelveBits (decimal n) = true := by
  have all : ∀ i ∈ List.range 16, twelveBits (Nat.toDigits 10 (16 + i)) = true := by decide
  have low : 16 ≤ n.toNat := low
  have high : n.toNat ≤ 31 := high
  have at_n := all (n.toNat - 16) (List.mem_range.mpr (by omega))
  rwa [Nat.add_sub_cancel' low] at at_n

/-- The first group of `fc00::/7`, as it is written. -/
def localGroup : List Char → Bool
  | [f, k, x, y] => f = 'f' && (k = 'c' || k = 'd') && hexDigit x && hexDigit y
  | _ => false
where
  hexDigit (c : Char) : Bool := ('0' ≤ c && c ≤ '9') || ('a' ≤ c && c ≤ 'f')

theorem localGroup_hexadecimal {g : UInt16} (low : 0xfc00 ≤ g) (high : g ≤ 0xfdff) :
    localGroup (hexadecimal g) = true := by
  have all : ∀ i ∈ List.range 512, localGroup (Nat.toDigits 16 (0xfc00 + i)) = true := by
    decide +kernel
  have low : 0xfc00 ≤ g.toNat := low
  have high : g.toNat ≤ 0xfdff := high
  have at_g := all (g.toNat - 0xfc00) (List.mem_range.mpr (by omega))
  rwa [Nat.add_sub_cancel' low] at at_g

section
variable {env : UrlEnv}

/-- A text that begins with a match of one of the patterns. -/
theorem isPrivateIp_of_spans {p : Pattern} (ignoreCase : Bool) {w after : List Char}
    (mem : (p, ignoreCase) ∈ privateIpPatterns)
    (spans : p.Spans env.unicode.toCharData ignoreCase [] w after) :
    isPrivateIp env (w ++ after) = true :=
  List.any_eq_true.mpr ⟨(p, ignoreCase), mem, matchesStart_of_spans spans⟩

theorem isPrivateIp_lit (tables : AddressTables env.unicode.toCharData) (start : String)
    (ignoreCase : Bool) (mem : (lit start, ignoreCase) ∈ privateIpPatterns) (after : List Char) :
    isPrivateIp env (start.toList ++ after) = true :=
  isPrivateIp_of_spans ignoreCase mem (spans_lit tables start [] after)

/-- A first character of its own, and one of a class behind it. -/
theorem spans_pair (tables : AddressTables env.unicode.toCharData) (first : String) {x y : Char}
    (text : first.toList = [x]) {items : List ClassItem}
    (holds : items.any (·.holds env.unicode.toCharData y) = true) (before after : List Char) :
    (seqs [lit first, .set false items]).Spans env.unicode.toCharData false
      before [x, y] after := by
  have one : (lit first).Spans env.unicode.toCharData false before first.toList
      ([y] ++ [] ++ after) := spans_lit tables first _ _
  rw [text] at one
  exact spans_seqs_cons one
    (spans_seqs_cons (spans_class tables holds _ ([] ++ after)) (spans_empty.mpr rfl))

theorem spans_twelveBits (tables : AddressTables env.unicode.toCharData) {x y : Char}
    (private_second : twelveBits [x, y] = true) (before after : List Char) :
    (alts [seqs [lit "1", .set false [.range '6' '9']], seqs [lit "2", .set false [.digit]],
      seqs [lit "3", oneOf "01"]]).Spans env.unicode.toCharData false before [x, y] after := by
  simp only [twelveBits, Bool.or_eq_true, Bool.and_eq_true, decide_eq_true_eq] at private_second
  refine spans_alt.mpr ?_
  rcases private_second with (⟨⟨rfl, low⟩, high⟩ | ⟨rfl, digit⟩) | ⟨rfl, last⟩
  · exact .inl (spans_pair tables "1" rfl (by simp [ClassItem.holds, low, high]) before after)
  · refine .inr (spans_alt.mpr (.inl ?_))
    exact spans_pair tables "2" rfl (by simp [ClassItem.holds, tables.digit y digit]) before after
  · refine .inr (spans_alt.mpr (.inr ?_))
    exact spans_pair tables "3" rfl (by simpa [ClassItem.holds] using last) before after

theorem isPrivateIp_twelveBits (tables : AddressTables env.unicode.toCharData)
    {second : List Char} (private_second : twelveBits second = true) (after : List Char) :
    isPrivateIp env ("172.".toList ++ second ++ '.' :: after) = true := by
  match second, private_second with
  | [x, y], private_second =>
    have mem : (_, false) ∈ privateIpPatterns := List.mem_of_getElem? (i := 2) rfl
    have spans : (seqs [lit "172.", alts [seqs [lit "1", .set false [.range '6' '9']],
        seqs [lit "2", .set false [.digit]], seqs [lit "3", oneOf "01"]], lit "."]).Spans
        env.unicode.toCharData false [] ("172.".toList ++ ([x, y] ++ (".".toList ++ []))) after :=
      spans_seqs_cons (spans_lit tables _ _ _) (spans_seqs_cons
        (spans_twelveBits tables private_second _ _)
        (spans_seqs_cons (spans_lit tables _ _ _) (spans_empty.mpr rfl)))
    rw [show "172.".toList ++ [x, y] ++ '.' :: after =
      "172.".toList ++ ([x, y] ++ (".".toList ++ [])) ++ after by simp]
    exact isPrivateIp_of_spans false mem spans

theorem isPrivateIp_v4 (tables : AddressTables env.unicode.toCharData) {a : Ipv4}
    (internal : a.internal = true) : isPrivateIp env a.text = true := by
  have starts : ∀ start : String, (lit start, false) ∈ privateIpPatterns →
      start.toList <+: a.text → isPrivateIp env a.text = true := by
    rintro start mem ⟨after, text⟩
    rw [← text]
    exact isPrivateIp_lit tables start false mem after
  simp only [Ipv4.internal, Bool.or_eq_true, Bool.and_eq_true, decide_eq_true_eq] at internal
  rcases internal with ((((first | first) | ⟨⟨first, low⟩, high⟩) | ⟨first, second⟩) |
    ⟨first, second⟩) | first
  · refine starts "127." (List.mem_of_getElem? (i := 0) rfl) ?_
    rw [Ipv4.text, first, show decimal 127 = "127".toList by decide]
    exact ⟨_, rfl⟩
  · refine starts "10." (List.mem_of_getElem? (i := 1) rfl) ?_
    rw [Ipv4.text, first, show decimal 10 = "10".toList by decide]
    exact ⟨_, rfl⟩
  · have text := isPrivateIp_twelveBits tables (twelveBits_decimal low high)
      (decimal a.third ++ '.' :: decimal a.fourth)
    rw [Ipv4.text, first, show decimal 172 = "172".toList by decide]
    simpa using text
  · refine starts "192.168." (List.mem_of_getElem? (i := 3) rfl) ?_
    rw [Ipv4.text, first, second, show decimal 192 = "192".toList by decide,
      show decimal 168 = "168".toList by decide]
    exact ⟨_, rfl⟩
  · refine starts "169.254." (List.mem_of_getElem? (i := 4) rfl) ?_
    rw [Ipv4.text, first, second, show decimal 169 = "169".toList by decide,
      show decimal 254 = "254".toList by decide]
    exact ⟨_, rfl⟩
  · refine starts "0." (List.mem_of_getElem? (i := 5) rfl) ?_
    rw [Ipv4.text, first, show decimal 0 = "0".toList by decide]
    exact ⟨_, rfl⟩

/-- The second character of a class of two characters more. -/
theorem spans_times_two (tables : AddressTables env.unicode.toCharData) {ignoreCase : Bool}
    {items : List ClassItem} {x y : Char}
    (first : items.any (·.holds env.unicode.toCharData x) = true)
    (second : items.any (·.holds env.unicode.toCharData y) = true) (before after : List Char) :
    (times (.set false items) 2).Spans env.unicode.toCharData ignoreCase before [x, y] after := by
  refine spans_rep.mpr ⟨2, Nat.le_refl 2, fun h two => ?_, ?_⟩
  · exact Nat.le_of_eq (Option.some.inj two)
  · exact .cons (a := [x]) (spans_class tables first _ _) (List.cons_ne_nil _ _)
      (.cons (a := [y]) (spans_class tables second _ _) (List.cons_ne_nil _ _) .nil)

theorem isPrivateIp_localGroup (tables : AddressTables env.unicode.toCharData)
    {group : List Char} (local_group : localGroup group = true) (after : List Char) :
    isPrivateIp env (group ++ ':' :: after) = true := by
  match group, local_group with
  | [f, k, x, y], local_group =>
    simp only [localGroup, localGroup.hexDigit, Bool.and_eq_true, decide_eq_true_eq]
      at local_group
    obtain ⟨⟨⟨rfl, kind⟩, first⟩, second⟩ := local_group
    have spans : ∀ start : String, start.toList = ['f', k] →
        (seqs [lit start, times (.set false [.range '0' '9', .range 'a' 'f']) 2, lit ":"]).Spans
          env.unicode.toCharData true [] (['f', k] ++ ([x, y] ++ (":".toList ++ []))) after := by
      intro start text
      rw [← text]
      exact spans_seqs_cons (spans_lit tables _ _ _) (spans_seqs_cons
        (spans_times_two tables (by simpa [ClassItem.holds] using first)
          (by simpa [ClassItem.holds] using second) _ _)
        (spans_seqs_cons (spans_lit tables _ _ _) (spans_empty.mpr rfl)))
    rw [show ['f', k, x, y] ++ ':' :: after =
      ['f', k] ++ ([x, y] ++ (":".toList ++ [])) ++ after by simp]
    rcases Bool.or_eq_true_iff.mp kind with is_c | is_d
    · obtain rfl : k = 'c' := of_decide_eq_true is_c
      exact isPrivateIp_of_spans true (List.mem_of_getElem? (i := 7) rfl) (spans "fc" rfl)
    · obtain rfl : k = 'd' := of_decide_eq_true is_d
      exact isPrivateIp_of_spans true (List.mem_of_getElem? (i := 8) rfl) (spans "fd" rfl)

theorem isPrivateIp_loopback : isPrivateIp env "::1".toList = true :=
  List.any_eq_true.mpr ⟨_, List.mem_of_getElem? (i := 6) rfl, rfl⟩

/-- The text of an address in a range of the list is matched by a pattern of the list. -/
theorem isPrivateIp_listed (tables : AddressTables env.unicode.toCharData) {a : Address}
    (in_list : listed a = true) : isPrivateIp env a.text.toList = true := by
  cases a with
  | v4 a =>
    rw [Address.text, String.toList_ofList]
    exact isPrivateIp_v4 tables in_list
  | v6 a =>
    rw [Address.text, String.toList_ofList]
    simp only [listed, Bool.or_eq_true, decide_eq_true_eq] at in_list
    rcases in_list with (loopback | unique) | link
    · rw [text_of_loopback loopback]
      exact isPrivateIp_loopback
    · obtain ⟨g, first, range⟩ := (Option.any_eq_true _ _).mp unique
      simp only [Bool.and_eq_true, decide_eq_true_eq] at range
      have some_first : g ≠ 0 := by
        rintro rfl
        exact absurd range.1 (by decide)
      obtain ⟨rest, text⟩ := text_of_first first some_first
      rw [text]
      exact isPrivateIp_localGroup tables (localGroup_hexadecimal range.1 range.2) rest
    · obtain ⟨rest, text⟩ := text_of_first link (by decide)
      rw [text, show hexadecimal 0xfe80 = "fe80".toList by decide]
      exact isPrivateIp_lit tables "fe80:" true (List.mem_of_getElem? (i := 9) rfl) rest

/-! ## What is accepted -/

variable {resolve : String → Resolution} {url : String}

/-- The resolver is asked last, about the host. -/
theorem accepted_iff : Accepted env resolve url ↔
    TextPasses env url ∧ ∃ host, resolvedHost env url = some host ∧
      resolvedError env host (resolve host).answer = none := by
  have no_address : ∀ host, resolvedError env host (Resolution.addresses []).answer = none :=
    fun _ => rfl
  unfold TextPasses Accepted validateFetchUrl resolvedHost
  by_cases no_url : url = ""
  · simp [no_url]
  · rw [if_neg no_url, if_neg no_url]
    cases urlparse env url.toList with
    | none => simp
    | some parsed =>
      simp only [Option.map_some, Option.some.injEq, exists_eq_left', no_address]
      split_ifs
      all_goals simp

theorem resolvedError_addresses {host : String} {as : List Address} :
    resolvedError env host (Resolution.addresses as).answer = none ↔
      ∀ a ∈ as, isPrivateIp env a.text.toList = false := by
  simp [resolvedError, Resolution.answer]

/-- The host of an accepted URL resolves to no address in a range of the list, and where it
does not resolve, the URL is accepted exactly if nothing in it is refused. -/
theorem accepted_unlisted (env : UrlEnv) (tables : AddressTables env.unicode.toCharData)
    (resolve : String → Resolution) (url host : String)
    (resolved : resolvedHost env url = some host) :
    (Accepted env resolve url →
        ∀ as, resolve host = .addresses as → ∀ a ∈ as, listed a = false) ∧
      (resolve host = .osError → (Accepted env resolve url ↔ TextPasses env url)) := by
  constructor
  · intro accepted as found a mem
    obtain ⟨-, host', same, passes⟩ := accepted_iff.mp accepted
    obtain rfl : host = host' := Option.some.inj (resolved.symm.trans same)
    rw [found, resolvedError_addresses] at passes
    cases in_list : listed a with
    | false => rfl
    | true =>
      have matched := isPrivateIp_listed tables in_list
      rw [passes a mem] at matched
      cases matched
  · intro failed
    rw [accepted_iff, resolved]
    constructor
    · exact fun both => both.1
    · intro text
      exact ⟨text, host, rfl, by rw [failed]; rfl⟩

end

/-- The ASCII tables, and no check of what stands in brackets. -/
def plainUrls : UrlEnv := ⟨.ascii, fun _ => true⟩

theorem ascii_addressTables : AddressTables plainUrls.unicode.toCharData where
  digit _ digit := digit
  itself c := by
    show c ∈ [c.toLower, c.toUpper]
    by_cases upper : 'A'.val ≤ c.val ∧ c.val ≤ 'Z'.val
    · have no_lower : ¬ ('a'.val ≤ c.val ∧ c.val ≤ 'z'.val) := fun lower =>
        absurd (UInt32.le_trans lower.1 upper.2) (by decide)
      have same : c.toUpper = c := dif_neg no_lower
      simp [same]
    · have same : c.toLower = c := dif_neg upper
      simp [same]

/-- A URL whose host is public, and one whose host does not resolve. -/
theorem public_accepted :
    (∀ a ∈ [Address.v4 ⟨93, 184, 215, 14⟩], listed a = false) ∧
      (Accepted plainUrls (fun _ => .osError) "http://a" ↔ TextPasses plainUrls "http://a") := by
  have resolved : resolvedHost plainUrls "http://a" = some "a" := by decide +kernel
  constructor
  · exact (accepted_unlisted plainUrls ascii_addressTables
      (fun _ => .addresses [.v4 ⟨93, 184, 215, 14⟩]) "http://a" "a" resolved).1
      (by decide +kernel) _ rfl
  · exact (accepted_unlisted plainUrls ascii_addressTables (fun _ => .osError) "http://a" "a"
      resolved).2 rfl

/-- A host that does not resolve. -/
theorem unresolved_accepted : ¬ Guarded plainUrls (fun _ => .osError) "http://a" := by
  intro guarded
  obtain ⟨_, _, -, found, -⟩ := guarded (by decide +kernel)
  cases found

end LegionForge.Security
