import LegionForge.Lib.Regex

/-!
# The pattern tables

`_INJECTION_PATTERNS`, `_PII_PATTERNS` and `_DESTRUCTIVE_PATTERNS`, each as an
enumeration in the order of its table together with the pattern every entry
stands for. An entry is reported by its name: the source reports an injection
pattern by its text and a destructive one by its category, and in both tables
these are distinct.

`_HALT_ON_INJECTION_PATTERNS`, `FORCE_END_CATEGORIES` and
`HITL_REVIEW_CATEGORIES` are predicates on the entries.
-/

namespace LegionForge.Security

open Regex

inductive InjectionPattern where
  | ignorePrevious | disregardPrevious | forgetPrevious | overrideInstructions
  | youAreNow | actAs | pretend | roleplay | simulate
  | jailbreak | danMode | developerMode | godMode | unrestrictedMode
  | revealPrompt | whatInstructions | repeatAbove | repeatVerbatim
  | inSystemPrompt | instructionsGiven | leakSystem | revealSystemMessage
  | whatWereYouTold | systemTag | instTag | imTag
  | danNumber | enableMode | fromNowOn | inNextMessage
  | decodeThis | base64Blob | forPurposes | hypothetically | imagine
  deriving DecidableEq, Repr

inductive PiiPattern where
  | email | phone | ssn | card | apiKey | dbDsn | privateIp | homePath
  deriving DecidableEq, Repr

inductive Category where
  | credentialProbe | internalProbe | systemPathProbe | bulkDestructive
  | selfProbe | cmdInjection | privilegeEscalation | dataStaging
  | reconnaissance
  deriving DecidableEq, Repr

/-! ## Injection -/

namespace InjectionPattern

private def previous : List Pattern :=
  [opt (seqs [lit "all", spaces]), lit "previous"]

private def optPossessive (texts : List String) : Pattern :=
  opt (seqs [words texts, spaces])

private def everyPossessive : List String := ["the", "your", "my", "this", "our"]

/-- `pattern.pattern`, matched with IGNORECASE. -/
def pattern : InjectionPattern → Pattern
  | ignorePrevious => seqs <| [lit "ignore", spaces] ++ previous ++
      [spaces, lit "instruction", opt (lit "s")]
  | disregardPrevious => seqs <| [lit "disregard", spaces] ++ previous
  | forgetPrevious => seqs <| [lit "forget", spaces] ++ previous ++
      [spaces, lit "instruction", opt (lit "s")]
  | overrideInstructions => seqs
      [lit "override", spaces, opt (seqs [lit "all", spaces]),
        opt (seqs [lit "previous", spaces]), lit "instruction", opt (lit "s")]
  | youAreNow => seqs
      [lit "you", spaces, lit "are", spaces, lit "now", spaces,
        opt (oneOf "'\""),
        .notAhead (alts [seqs [lit "a", spaces, lit "helpful"],
          seqs [lit "an", spaces, lit "AI"]]),
        .rep (.set false [.range 'a' 'z', .space]) 3 none]
  | actAs => seqs
      [lit "act", spaces, lit "as", spaces,
        alts [seqs [lit "if", spaces, lit "you", spaces, words ["are", "were"]],
          seqs [lit "a", spaces]]]
  | pretend => seqs
      [lit "pretend", spaces,
        alts [seqs [lit "you", spaces, lit "are"], seqs [lit "to", spaces, lit "be"]]]
  | roleplay => seqs [lit "roleplay", spaces, lit "as"]
  | simulate => seqs [lit "simulate", spaces, words ["being", "a"]]
  | jailbreak => lit "jailbreak"
  | danMode => seqs [lit "dan", spaces, lit "mode"]
  | developerMode => seqs [lit "developer", spaces, lit "mode"]
  | godMode => seqs [lit "god", spaces, lit "mode"]
  | unrestrictedMode => seqs [lit "unrestricted", spaces, lit "mode"]
  | revealPrompt => seqs
      [words ["reveal", "show", "print", "output", "display"], spaces,
        optPossessive ["your"], optPossessive ["system"], lit "prompt"]
  | whatInstructions => seqs
      [lit "what", spaces, words ["are", "were"], spaces, lit "your", spaces,
        lit "instructions"]
  | repeatAbove => seqs
      [lit "repeat", spaces, words ["everything", "all"], spaces,
        words ["above", "before"]]
  | repeatVerbatim => seqs
      [lit "repeat", spaces,
        alts [lit "verbatim", lit "exactly",
          seqs [lit "word", .set false [.space, .char '-'], lit "for",
            .set false [.space, .char '-'], lit "word"]]]
  | inSystemPrompt => seqs
      [words ["in", "from"], spaces, lit "your", spaces, lit "system", spaces,
        lit "prompt"]
  | instructionsGiven => seqs
      [lit "instruction", opt (lit "s"), spaces, lit "given", spaces, lit "to",
        spaces, lit "you", spaces, lit "by", spaces, optPossessive ["the"],
        words ["operator", "developer", "system", "admin"]]
  | leakSystem => seqs
      [words ["leak", "dump", "expose", "exfiltrate", "disclose"], spaces,
        optPossessive everyPossessive, lit "system", spaces,
        alts [lit "prompt", lit "message", seqs [lit "instruction", opt (lit "s")]]]
  | revealSystemMessage => seqs
      [words ["reveal", "show", "print", "output", "display", "repeat", "share"],
        spaces, optPossessive everyPossessive,
        alts [seqs [lit "system", spaces, lit "message"],
          seqs [lit "initial", spaces,
            alts [seqs [lit "instruction", opt (lit "s")], lit "prompt"]],
          seqs [lit "operator", spaces,
            alts [lit "prompt", seqs [lit "instruction", opt (lit "s")]]],
          seqs [lit "pre", opt (.set false [.space, .char '-']), lit "prompt"]]]
  | whatWereYouTold => seqs
      [lit "what", spaces, lit "were", spaces, lit "you", spaces,
        words ["told", "instructed"]]
  | systemTag => seqs
      [lit "<", star (.set false [.space]),
        words ["system", "instruction", "prompt"], star (.set false [.space]),
        lit ">"]
  | instTag => words ["[INST]", "[/INST]"]
  | imTag => words ["<|im_start|>", "<|im_end|>"]
  | danNumber => seqs
      [lit "dan", star (.set false [.space]), digits 1 none, opt (lit "."),
        digits 0 none]
  | enableMode => seqs
      [words ["enable", "activate", "unlock"], spaces,
        words ["dan", "developer", "god", "unrestricted", "jailbreak"], spaces,
        lit "mode"]
  | fromNowOn => seqs
      [lit "from", spaces, lit "now", spaces, lit "on",
        plus (.set false [.char ',', .space]),
        alts [seqs [lit "you", spaces, words ["are", "must", "will", "should"]],
          seqs [lit "act", spaces, lit "as"], seqs [lit "respond", spaces, lit "as"]]]
  | inNextMessage => seqs
      [lit "in", spaces,
        alts [seqs [lit "your", spaces, lit "next"], seqs [lit "the", spaces, lit "next"]],
        spaces, words ["message", "response", "reply", "output", "turn"]]
  | decodeThis => seqs
      [words ["decode", "translate", "interpret", "convert"], spaces,
        optPossessive ["this"], optPossessive ["from"],
        alts [lit "base64", lit "hex", lit "rot13", lit "morse",
          seqs [lit "caesar", spaces, lit "cipher"]]]
  | base64Blob => seqs
      [lit "base64", star (.set false [.space]), oneOf "=:",
        star (.set false [.space]),
        .rep (.set false [.range 'A' 'Z', .range 'a' 'z', .range '0' '9',
          .char '+', .char '/']) 10 none,
        .rep (chr '=') 0 (some 2)]
  | forPurposes => seqs
      [lit "for", spaces,
        words ["educational", "academic", "research", "hypothetical", "illustrative"],
        spaces, lit "purposes"]
  | hypothetically => seqs
      [lit "hypothetically", spaces,
        alts [lit "speaking", lit ",", seqs [lit "if", .boundary]]]
  | imagine => seqs
      [lit "imagine", spaces,
        alts [seqs [lit "you", spaces, words ["are", "were", "could", "can"]],
          seqs [lit "being", spaces, lit "a", spaces]]]

/-- `_INJECTION_PATTERNS`, in its order. -/
def all : List InjectionPattern :=
  [ignorePrevious, disregardPrevious, forgetPrevious, overrideInstructions,
    youAreNow, actAs, pretend, roleplay, simulate,
    jailbreak, danMode, developerMode, godMode, unrestrictedMode,
    revealPrompt, whatInstructions, repeatAbove, repeatVerbatim,
    inSystemPrompt, instructionsGiven, leakSystem, revealSystemMessage,
    whatWereYouTold, systemTag, instTag, imTag,
    danNumber, enableMode, fromNowOn, inNextMessage,
    decodeThis, base64Blob, forPurposes, hypothetically, imagine]

/-- Membership in `_HALT_ON_INJECTION_PATTERNS`. -/
def halts : InjectionPattern → Bool
  | ignorePrevious | disregardPrevious | forgetPrevious | overrideInstructions
  | jailbreak | danMode | danNumber | enableMode | revealPrompt
  | whatInstructions | systemTag | instTag | imTag | leakSystem
  | revealSystemMessage => true
  | _ => false

end InjectionPattern

/-! ## Personal data -/

namespace PiiPattern

private def letters : List ClassItem := [.range 'A' 'Z', .range 'a' 'z']

private def alnum : List ClassItem := letters ++ [.range '0' '9']

private def plusChars (texts : String) : List ClassItem :=
  alnum ++ texts.toList.map .char

private def octets (n : Nat) : Pattern :=
  times (seqs [lit ".", digits 1 (some 3)]) n

/-- The compiled pattern, matched with regard to case. -/
def pattern : PiiPattern → Pattern
  | email => seqs
      [.boundary, plus (.set false (plusChars "._%+-")), lit "@",
        plus (.set false (plusChars ".-")), lit ".",
        .rep (.set false (letters ++ [.char '|'])) 2 none, .boundary]
  | phone => seqs
      [.boundary,
        opt (seqs [opt (lit "+"), lit "1",
          opt (.set false [.char '-', .char '.', .space])]),
        opt (lit "("), digits 3 (some 3), opt (lit ")"),
        opt (.set false [.char '-', .char '.', .space]), digits 3 (some 3),
        opt (.set false [.char '-', .char '.', .space]), digits 4 (some 4),
        .boundary]
  | ssn => seqs
      [.boundary, digits 3 (some 3), lit "-", digits 2 (some 2), lit "-",
        digits 4 (some 4), .boundary]
  | card => seqs
      [.boundary,
        times (seqs [digits 4 (some 4), opt (.set false [.char '-', .space])]) 3,
        digits 4 (some 4), .boundary]
  | apiKey => seqs
      [.boundary,
        alts [lit "sk-", lit "ls__", lit "pk_", lit "rk_",
          seqs [lit "Bearer", spaces]],
        .rep (.set false (plusChars "_-")) 16 none, .boundary]
  | dbDsn => seqs
      [words ["postgresql", "postgres", "mysql", "mongodb", "redis", "sqlite"],
        lit "://", star (.set false (plusChars "_.%+-")),
        opt (seqs [lit ":", .rep (.set true [.char '@', .space]) 1 (some 64)]),
        lit "@",
        plus (.set true [.space, .char '"', .char '\'', .char '\x60'])]
  | privateIp => seqs
      [.notBehind "://".toList, .boundary,
        alts [seqs [lit "10", octets 3],
          seqs [lit "172.",
            alts [seqs [lit "1", .set false [.range '6' '9']],
              seqs [lit "2", .set false [.digit]],
              seqs [lit "3", oneOf "01"]], octets 2],
          seqs [lit "192.168", octets 2],
          seqs [lit "127", octets 3],
          seqs [lit "169.254", octets 2]],
        .boundary]
  | homePath => seqs
      [lit "/", words ["Users", "home"], lit "/",
        plus (.set false (plusChars "._-")),
        opt (seqs [lit "/",
          star (.set true [.space, .char '"', .char '\'', .char '\x60'])])]

def replacement : PiiPattern → String
  | email => "[EMAIL]"
  | phone => "[PHONE]"
  | ssn => "[SSN]"
  | card => "[CARD]"
  | apiKey => "[API_KEY]"
  | dbDsn => "[DB_DSN]"
  | privateIp => "[PRIVATE_IP]"
  | homePath => "[HOME_PATH]"

/-- `_PII_PATTERNS`, in the order they are applied. -/
def all : List PiiPattern :=
  [email, phone, ssn, card, apiKey, dbDsn, privateIp, homePath]

end PiiPattern

/-! ## Destructive categories -/

namespace Category

/-- The separator `[_\-\s]?` of compound names. -/
private def joint : Pattern := opt (.set false [.char '_', .char '-', .space])

private def joined (a b : String) : Pattern := seqs [lit a, joint, lit b]

private def plural (text : String) : Pattern := seqs [lit text, opt (lit "s")]

private def plurals (texts : List String) : Pattern := alts (texts.map plural)

private def spaced (a b : String) : Pattern := seqs [lit a, spaces, lit b]

private def wordBound (ps : List Pattern) : Pattern :=
  seqs [.boundary, alts ps, .boundary]

/-- `verb (all|every|the) (files?|data|…)` of the bulk patterns. -/
private def bulk (verb : String) (nouns : List String) : Pattern :=
  seqs [lit verb, spaces, words ["all", "every", "the"], spaces,
    alts ([plural "file", lit "data"] ++ nouns.map plural)]

/-- The pattern of the category, matched with IGNORECASE. -/
def pattern : Category → Pattern
  | credentialProbe => wordBound
      [lit "password", lit "passwd", joined "api" "key", joined "secret" "key",
        joined "private" "key", joined "access" "token", joined "auth" "token",
        joined "bearer" "token", plural "credential", lit "keychain",
        spaced "vault" "secret", spaced "pgp" "key", spaced "ssh" "key",
        joined "client" "secret"]
  | internalProbe => wordBound
      [lit "localhost", lit "127.0.0.1", lit "0.0.0.0",
        seqs [lit "169.254.", digits 1 none, lit ".", digits 1 none],
        seqs [lit "internal", joint,
          words ["api", "service", "host", "network", "endpoint"]],
        lit "intranet",
        seqs [lit "admin", joint,
          words ["panel", "console", "interface", "login", "portal"]],
        seqs [lit "management", joint, words ["console", "interface", "portal"]],
        seqs [lit "corp", opt (lit "orate"), spaces, lit "network"],
        seqs [lit "vpn", spaces, words ["gateway", "server", "config"]]]
  | systemPathProbe => alts
      [seqs [lit "/etc/",
          words ["passwd", "shadow", "hosts", "sudoers", "crontab", "ssh", "ssl"]],
        lit "/root/",
        seqs [lit "/home/", plus (.set false [.word]), lit "/.",
          words ["ssh", "aws", "gnupg", "config"]],
        seqs [lit "~/.",
          words ["ssh", "aws", "gnupg", "config", "env", "bashrc", "zshrc"]],
        lit "\\\\HKLM\\\\", lit "\\\\HKCU\\\\", lit "%APPDATA%", lit "%SYSTEMROOT%",
        lit "%LOCALAPPDATA%", lit "C:\\\\Windows\\\\System32",
        seqs [lit "C:\\\\Users\\\\", plus (noneOf "/\\"), lit "\\\\AppData"]]
  | bulkDestructive => wordBound
      [seqs [lit "exfil", opt (lit "trat"), opt (lit "e")],
        seqs [lit "dump", spaces,
          alts [lit "all",
            seqs [lit "the", spaces,
              alts [lit "database", lit "db", plural "table", lit "data",
                plural "user", plural "record"]]]],
        seqs [lit "export", spaces,
          words ["all", "every", "complete", "full", "entire"]],
        seqs [lit "scrape", spaces,
          alts [lit "all", lit "every",
            seqs [lit "the", spaces,
              alts [lit "site", lit "web", plural "page", lit "content"]]]],
        seqs [lit "harvest", spaces,
          alts [lit "all", lit "data", plural "credential", plural "email",
            plural "record"]],
        bulk "encrypt" ["disk", "volume", "backup"],
        bulk "overwrite" ["disk", "record"],
        seqs [lit "wipe", spaces,
          alts [lit "all", lit "the", plural "disk", plural "drive",
            plural "volume", lit "database"]],
        bulk "delete" ["record", "user", "backup"],
        bulk "shred" ["disk"]]
  | selfProbe => wordBound
      [seqs [lit "your", spaces, opt (seqs [lit "system", spaces]), lit "prompt"],
        seqs [lit "your", spaces, plural "instruction"],
        seqs [lit "your", spaces, opt (seqs [lit "api", spaces]), lit "key"],
        seqs [lit "your", spaces, words ["initial", "current"], spaces,
          alts [plural "instruction", lit "context"]],
        seqs [lit "legionforge", spaces, words ["config", "secret", "key", "prompt"]],
        seqs [lit "agent", joint,
          words ["config", "settings", "state", "key", "identity"]],
        seqs [lit "what", spaces, lit "are", spaces, lit "your", spaces,
          plural "instruction"]]
  | cmdInjection => alts
      [seqs [oneOf "|;&\x60", star (.set false [.space]),
          alts [lit "cat", lit "ls", lit "ps", lit "id", lit "whoami", lit "wget",
            lit "curl", lit "nc", lit "netcat", lit "bash", lit "sh", lit "zsh",
            lit "dash", seqs [lit "python", digits 0 none], lit "perl", lit "ruby",
            lit "node", lit "php", lit "powershell", lit "cmd.exe"],
          .boundary],
        seqs [lit "$(", plus (noneOf ")"), lit ")"],
        seqs [lit "\x60", .rep (noneOf "\x60") 3 none, lit "\x60"],
        seqs [.boundary, lit "eval", star (.set false [.space]), lit "("]]
  | privilegeEscalation => wordBound
      [lit "sudo",
        seqs [lit "run", spaces, lit "as", spaces,
          words ["root", "admin", "administrator", "superuser"]],
        seqs [lit "escalate", spaces,
          alts [plural "privilege", plural "permission", lit "access", lit "scope"]],
        seqs [lit "bypass", spaces, opt (seqs [lit "the", spaces]),
          alts [lit "security", seqs [lit "auth", star (.set false [.word])],
            lit "authorization", lit "check", lit "filter", lit "guard"]],
        seqs [lit "disable", spaces,
          opt (alts [seqs [lit "the", spaces], seqs [lit "a", spaces]]),
          alts [lit "security", plural "safeguard", plural "check",
            plural "filter", plural "guard", lit "monitoring", lit "logging"]],
        seqs [lit "grant", spaces,
          alts [lit "yourself", lit "itself", spaced "the" "agent"],
          opt (seqs [spaces, plus (.set false [.word])]), spaces,
          alts [lit "access", plural "permission", plural "privilege"]]]
  | dataStaging => wordBound
      [seqs [lit "send", spaces, words ["this", "the", "all"], spaces,
          words ["data", "output", "result", "content"], spaces, lit "to"],
        seqs [lit "post", spaces, words ["this", "the", "all"], spaces,
          words ["data", "output", "result"], spaces, lit "to"],
        lit "webhook.site", lit "requestbin", lit "pipedream",
        seqs [lit "ngrok.", words ["io", "com"]],
        lit "pastebin.com", lit "hastebin", lit "ghostbin",
        seqs [lit "base64", spaces, words ["encode", "encod"], spaces,
          opt (seqs [lit "and", spaces]), words ["send", "post", "upload"]],
        seqs [lit "encode", spaces, opt (seqs [lit "and", spaces]),
          words ["exfil", "send", "transmit", "upload"]]]
  | reconnaissance => wordBound
      [seqs [lit "enumerate", spaces, opt (seqs [lit "all", spaces]),
          plurals ["user", "account", "service", "host", "port", "subnet", "domain"]],
        seqs [lit "list", spaces, lit "all", spaces,
          alts [plural "user", plural "account", plural "service",
            plural "processe", plural "port",
            plural "connection"]],
        seqs [lit "network", spaces, words ["scan", "map", "topology", "enumeration"]],
        seqs [lit "port", spaces, words ["scan", "sweep", "probe"]],
        seqs [lit "service", spaces, words ["discovery", "enumeration", "fingerprint"]],
        seqs [lit "os", spaces,
          alts [lit "detection", lit "fingerprint",
            seqs [lit "version", spaces, lit "scan"]]]]

/-- The category as the source spells it. -/
def name : Category → String
  | credentialProbe => "CREDENTIAL_PROBE"
  | internalProbe => "INTERNAL_PROBE"
  | systemPathProbe => "SYSTEM_PATH_PROBE"
  | bulkDestructive => "BULK_DESTRUCTIVE"
  | selfProbe => "SELF_PROBE"
  | cmdInjection => "CMD_INJECTION"
  | privilegeEscalation => "PRIVILEGE_ESCALATION"
  | dataStaging => "DATA_STAGING"
  | reconnaissance => "RECONNAISSANCE"

/-- `_DESTRUCTIVE_PATTERNS`, in its order. -/
def all : List Category :=
  [credentialProbe, internalProbe, systemPathProbe, bulkDestructive, selfProbe,
    cmdInjection, privilegeEscalation, dataStaging, reconnaissance]

/-- Membership in `FORCE_END_CATEGORIES`. -/
def forceEnd : Category → Bool
  | cmdInjection | selfProbe | dataStaging | privilegeEscalation => true
  | _ => false

/-- Membership in `HITL_REVIEW_CATEGORIES`. -/
def review : Category → Bool
  | credentialProbe | reconnaissance | internalProbe | bulkDestructive
  | systemPathProbe => true
  | _ => false

/-- The two tiers split the categories. -/
theorem review_eq_not_forceEnd (c : Category) : c.review = !c.forceEnd := by
  cases c <;> rfl

end Category

end LegionForge.Security
