import PgMetrics.Proofs.Decimal.Spelling
import PgMetrics.Proofs.Text.Fields
import PgMetrics.Telemetry.Endpoint

/-! # The name that the other side must prove

An endpoint names a host, perhaps after a scheme and before a port and a path.  Giving it a scheme
is done once and for all.  The name that is asked for is the host if that is a name or a four-part
address; of an address in brackets only what stands before its first colon is taken, which is the
name of no host.
-/
namespace PgMetrics.Telemetry.Endpoint

section
variable {sep : Char} {cs : List Char}

theorem before_append (h : sep ∉ cs) (rest : List Char) :
    before sep (cs ++ rest) = cs ++ before sep rest := by
  refine List.takeWhile_append_of_pos fun c hc => ?_
  simpa using ne_of_mem_of_not_mem hc h

theorem notMem_before (sep : Char) (cs : List Char) : sep ∉ before sep cs := by
  intro h
  simpa using List.mem_takeWhile_imp h

/-- Separators at the end do not change what stands before the first one. -/
theorem before_dropEndWhile (sep : Char) (cs : List Char) :
    before sep (Text.dropEndWhile (· == sep) cs) = before sep cs := by
  induction cs with
  | nil => rfl
  | cons c rest ih =>
    unfold before at ih ⊢
    unfold Text.dropEndWhile
    by_cases hc : c = sep
    · split <;> simp [hc]
    · split
      next hnil =>
        rw [hnil] at ih
        simpa [hc] using ih
      next => simpa [hc] using ih

end

/-- Whether a text has none of the marks that structure an endpoint. -/
def IsPlain (cs : List Char) : Prop := cs ≠ [] ∧ ':' ∉ cs ∧ '/' ∉ cs

theorem isPlain_of_fields {cs : List Char} (hne : cs ≠ [])
    (h : ∀ f ∈ Text.fields '.' cs, ∀ c ∈ f, c ≠ ':' ∧ c ≠ '/') : IsPlain cs := by
  refine ⟨hne, fun hcolon => ?_, fun hslash => ?_⟩
  · obtain hdot | ⟨f, hf, hc⟩ := Text.eq_or_mem_fields '.' hcolon
    · exact absurd hdot (by decide)
    · exact (h f hf _ hc).1 rfl
  · obtain hdot | ⟨f, hf, hc⟩ := Text.eq_or_mem_fields '.' hslash
    · exact absurd hdot (by decide)
    · exact (h f hf _ hc).2 rfl

theorem ne_marks_of_isLabel {f : List Char} (h : Net.isLabel f = true) :
    ∀ c ∈ f, c ≠ ':' ∧ c ≠ '/' := by
  intro c hc
  simp only [Net.isLabel, Bool.and_eq_true, List.all_eq_true] at h
  have hmark := h.2 c hc
  constructor <;> rintro rfl <;> exact absurd hmark (by decide)

theorem mem_nameLabels {cs f : List Char} (h : f ∈ Text.fields '.' cs) :
    f ∈ Net.nameLabels cs ∨ f = [] := by
  unfold Net.nameLabels
  split
  next only hfields =>
    rw [hfields] at h
    exact .inl h
  next =>
    split
    next hlast =>
      obtain ⟨front, hfront⟩ := List.getLast?_eq_some_iff.mp hlast
      rw [hfront] at h ⊢
      rw [List.dropLast_concat]
      simpa using h
    next => exact .inl h

theorem isPlain_of_isHostName {cs : List Char} (h : Net.isHostName cs = true) : IsPlain cs := by
  simp only [Net.isHostName, Bool.and_eq_true, List.all_eq_true] at h
  obtain ⟨⟨-, hlabels⟩, -⟩ := h
  refine isPlain_of_fields ?_ fun f hf => ?_
  · rintro rfl
    exact absurd (hlabels [] List.mem_cons_self) (by decide)
  · obtain hlabel | rfl := mem_nameLabels hf
    · exact ne_marks_of_isLabel (hlabels f hlabel)
    · exact List.forall_mem_nil _

theorem isDigit_of_part? {f : List Char} (h : (Net.part? f).isSome = true) :
    ∀ c ∈ f, c.isDigit = true := by
  unfold Net.part? at h
  split at h
  · cases h
  · split at h
    next n hn => exact Decimal.isDigit_of_natural? hn
    next => cases h

theorem isPlain_of_parts? {cs : List Char} (h : (Net.parts? cs).isSome = true) : IsPlain cs := by
  unfold Net.parts? at h
  split at h
  next a b c d hfields =>
    obtain ⟨parts, hparts⟩ := Option.isSome_iff_exists.mp h
    simp only [Option.bind_eq_bind, Option.bind_eq_some_iff] at hparts
    obtain ⟨_, ha, _, hb, _, hc, _, hd, -⟩ := hparts
    refine isPlain_of_fields ?_ ?_
    · rintro rfl
      cases hfields
    · rw [hfields]
      have hmarks : ∀ f, (Net.part? f).isSome = true → ∀ c ∈ f, c ≠ ':' ∧ c ≠ '/' := by
        intro f hf c hc
        have hdigit := isDigit_of_part? hf c hc
        constructor <;> rintro rfl <;> exact absurd hdigit (by decide)
      simp only [List.forall_mem_cons]
      exact ⟨hmarks a (by simp [ha]), hmarks b (by simp [hb]), hmarks c (by simp [hc]),
        hmarks d (by simp [hd]), List.forall_mem_nil _⟩
  next => cases h

theorem cutGap_of_notMem {cs : List Char} (h : ':' ∉ cs) : Net.cutGap cs = none := by
  fun_induction Net.cutGap cs with
  | case1 => simp at h
  | case2 c rest _ ih => rw [ih (List.not_mem_of_not_mem_cons h), Option.map_none]
  | case3 => rfl

/-- An address of version 6 has a colon: a text without one is a single field, which makes one
group or two, not eight. -/
theorem mem_colon_of_v6? {cs : List Char} (h : (Net.v6? cs).isSome = true) : ':' ∈ cs := by
  by_contra hnone
  unfold Net.v6? at h
  rw [cutGap_of_notMem hnone, Text.fields_of_not_mem ':' hnone] at h
  dsimp only at h
  unfold Net.groupsOf? at h
  cases hgroup : Net.group? cs with
  | some g =>
    rw [hgroup] at h
    cases h
  | none =>
    rw [hgroup] at h
    cases hparts : Net.parts? cs with
    | none =>
      rw [hparts] at h
      cases h
    | some parts =>
      rw [hparts] at h
      cases h

inductive Host where
  /-- A name, a four-part address, or any other text without colon and slash. -/
  | plain (text : List Char) (h : IsPlain text)
  /-- An address of version 6 between brackets. -/
  | bracketed (text : List Char) (h : (Net.v6? text).isSome = true)

namespace Host

def chars : Host → List Char
  | .plain text _ => text
  | .bracketed text _ => '[' :: text ++ [']']

def IsBracketed : Host → Prop
  | .plain _ _ => False
  | .bracketed _ _ => True

end Host

inductive Scheme where
  | http
  | https

def Scheme.text : Scheme → String
  | .http => plainScheme
  | .https => encryptedScheme

/-- An endpoint in its parts. -/
structure Spelling where
  scheme : Option Scheme := none
  host : Host
  /-- The digits of the port. -/
  port : Option (List Char) := none
  /-- What follows, from the first slash on. -/
  path : List Char := []
  port_digits : ∀ digits ∈ port, digits ≠ [] ∧ ∀ c ∈ digits, c.isDigit = true := by simp
  path_slash : ∀ c ∈ path.head?, c = '/' := by simp

namespace Spelling

def portChars (e : Spelling) : List Char :=
  match e.port with
  | none => []
  | some digits => ':' :: digits

def body (e : Spelling) : List Char := e.host.chars ++ (e.portChars ++ e.path)

def text (e : Spelling) : String := e.scheme.elim "" Scheme.text ++ String.ofList e.body

/-- The name that has to be proven: the host, unless nothing is encrypted. -/
def proven? (e : Spelling) : Option String :=
  match e.scheme with
  | some .http => none
  | _ => some (String.ofList e.host.chars)

theorem before_path {e : Spelling} : before '/' e.path = [] := by
  have hslash := e.path_slash
  cases hpath : e.path with
  | nil => rfl
  | cons c rest =>
    obtain rfl : c = '/' := hslash c (by rw [hpath]; rfl)
    simp [before]

theorem notMem_portChars (e : Spelling) : '/' ∉ e.portChars := by
  unfold portChars
  split
  · exact List.not_mem_nil
  next digits hport =>
    intro h
    rcases List.mem_cons.mp h with h | h
    · exact absurd h (by decide)
    · exact absurd ((e.port_digits digits hport).2 _ h) (by decide)

def named (e : Spelling) : List Char := before ':' (before '/' e.body)

theorem named_plain {e : Spelling} {text : List Char} {h : IsPlain text}
    (hhost : e.host = .plain text h) : e.named = text := by
  unfold named body
  rw [hhost]
  change before ':' (before '/' (text ++ (e.portChars ++ e.path))) = text
  rw [before_append h.2.2, before_append e.notMem_portChars, before_path, List.append_nil,
    before_append h.2.1]
  unfold portChars
  split <;> simp [before]

theorem named_bracketed {e : Spelling} {text : List Char} {h : (Net.v6? text).isSome = true}
    (hhost : e.host = .bracketed text h) : e.named ≠ e.host.chars := by
  intro heq
  refine notMem_before ':' (before '/' e.body) ?_
  change ':' ∈ e.named
  rw [heq, hhost]
  simp [Host.chars, mem_colon_of_v6? h]

/-- What has no scheme does not begin with one: before the first slash a colon would stand last,
where digits of the port have to follow. -/
theorem not_scheme_isPrefix_body (e : Spelling) (s : Scheme) : ¬ s.text.toList <+: e.body := by
  rintro ⟨rest, hrest⟩
  cases hhost : e.host with
  | bracketed text h =>
    rw [body, hhost] at hrest
    cases s <;> simp [Scheme.text, plainScheme, encryptedScheme, Host.chars] at hrest
  | plain text h =>
    have hfirst : before '/' e.body = text ++ e.portChars := by
      rw [body, hhost]
      change before '/' (text ++ (e.portChars ++ e.path)) = _
      rw [before_append h.2.2, before_append e.notMem_portChars, before_path, List.append_nil]
    obtain ⟨word, hword, hscheme⟩ :
        ∃ word, ':' ∉ word ∧ before '/' (s.text.toList ++ rest) = word ++ [':'] := by
      cases s
      · exact ⟨"http".toList, by decide, by simp [Scheme.text, plainScheme, before]⟩
      · exact ⟨"https".toList, by decide, by simp [Scheme.text, encryptedScheme, before]⟩
    rw [hrest, hfirst, portChars] at hscheme
    split at hscheme
    · refine h.2.1 ?_
      rw [List.append_nil] at hscheme
      simp [hscheme]
    next digits hport =>
      have hcut := Text.cut_append_sep ':' h.2.1 digits
      rw [hscheme, Text.cut_append_sep ':' hword []] at hcut
      cases hcut
      exact (e.port_digits [] hport).1 rfl

end Spelling

/-- The name of an encrypted endpoint is what stands before its first slash and then before the
first colon, unless that is nothing. -/
theorem serverName?_of_toList {s : String} {rest name : List Char}
    (h : s.toList = encryptedScheme.toList ++ rest) (hname : before ':' (before '/' rest) = name) :
    serverName? s = if name = [] then none else some (String.ofList name) := by
  have hstarts : s.startsWith encryptedScheme = true := by
    rw [String.startsWith_string_iff, h]
    exact List.prefix_append _ _
  have hdrop : s.toList.drop encryptedScheme.length = rest := by
    rw [h, ← String.length_toList, List.drop_left]
  rw [serverName?, if_pos hstarts, hdrop, hname]
  cases name <;> rfl

theorem withScheme_of_startsWith {s : String} (scheme : Scheme)
    (h : s.startsWith scheme.text = true) : withScheme s = s := by
  refine if_pos ?_
  cases scheme with
  | http => exact Bool.or_eq_true_iff.mpr (.inl h)
  | https => exact Bool.or_eq_true_iff.mpr (.inr h)

/-- An endpoint that was given a scheme keeps it. -/
theorem withScheme_idem (endpoint : String) :
    withScheme (withScheme endpoint) = withScheme endpoint := by
  by_cases h : (endpoint.startsWith plainScheme || endpoint.startsWith encryptedScheme) = true
  · have hself : withScheme endpoint = endpoint := if_pos h
    rw [hself, hself]
  · have hgiven : withScheme endpoint = encryptedScheme ++
        String.ofList (Text.dropEndWhile (· == '/') endpoint.toList) := if_neg h
    refine withScheme_of_startsWith .https ?_
    rw [hgiven, String.startsWith_string_iff, String.toList_append]
    exact List.prefix_append _ _

theorem serverName?_http {s : String} {rest : List Char}
    (h : s.toList = plainScheme.toList ++ rest) : serverName? s = none := by
  refine if_neg ?_
  rw [String.startsWith_string_iff, h]
  simp [plainScheme, encryptedScheme]

namespace Spelling

theorem toList_text_of_scheme {e : Spelling} {s : Scheme} (h : e.scheme = some s) :
    e.text.toList = s.text.toList ++ e.body := by
  rw [text, h]
  simp

/-- A spelled scheme is kept, and an endpoint without one becomes encrypted. -/
theorem withScheme_text_of_some {e : Spelling} {s : Scheme} (h : e.scheme = some s) :
    withScheme e.text = e.text := by
  refine withScheme_of_startsWith s ?_
  rw [String.startsWith_string_iff, toList_text_of_scheme h]
  exact List.prefix_append _ _

theorem toList_withScheme_of_none {e : Spelling} (h : e.scheme = none) :
    (withScheme e.text).toList =
      encryptedScheme.toList ++ Text.dropEndWhile (· == '/') e.body := by
  have htext : e.text.toList = e.body := by
    rw [text, h]
    simp
  have hnone : ¬ (e.text.startsWith plainScheme || e.text.startsWith encryptedScheme) = true := by
    rw [Bool.or_eq_true, String.startsWith_string_iff, String.startsWith_string_iff, htext]
    exact not_or.mpr ⟨e.not_scheme_isPrefix_body .http, e.not_scheme_isPrefix_body .https⟩
  rw [withScheme, if_neg hnone, String.toList_append, String.toList_ofList, htext]

theorem serverName?_text {e : Spelling} (h : e.scheme ≠ some .http) :
    serverName? (withScheme e.text) =
      if e.named = [] then none else some (String.ofList e.named) := by
  rcases hscheme : e.scheme with _ | _ | _
  · refine serverName?_of_toList (toList_withScheme_of_none hscheme) ?_
    rw [before_dropEndWhile]
    rfl
  · exact absurd hscheme h
  · rw [withScheme_text_of_some hscheme]
    exact serverName?_of_toList (toList_text_of_scheme hscheme) rfl

end Spelling

/-- Names and four-part addresses are plain hosts.  The other side has to prove just the host, or
nothing if the scheme is not encrypted, unless the host is an address of version 6 in an encrypted
endpoint: that host is never asked for.  Giving a scheme twice is giving it once. -/
theorem proven_iff (e : Spelling) (endpoint : String) :
    (∀ text, Net.isHostName text = true ∨ (Net.parts? text).isSome = true → IsPlain text) ∧
    (serverName? (withScheme e.text) = e.proven? ↔
      (e.host.IsBracketed → e.scheme = some .http)) ∧
    withScheme (withScheme endpoint) = withScheme endpoint := by
  refine ⟨fun text h => h.elim isPlain_of_isHostName isPlain_of_parts?, ?_,
    withScheme_idem endpoint⟩
  by_cases hscheme : e.scheme = some .http
  · rw [e.withScheme_text_of_some hscheme, serverName?_http (e.toList_text_of_scheme hscheme)]
    simp [Spelling.proven?, hscheme]
  · have hproven : e.proven? = some (String.ofList e.host.chars) := by
      unfold Spelling.proven?
      split
      · contradiction
      · rfl
    rw [e.serverName?_text hscheme, hproven]
    cases hhost : e.host with
    | plain text h =>
      rw [Spelling.named_plain hhost, if_neg h.1]
      simp [Host.chars, Host.IsBracketed]
    | bracketed text h =>
      have hne : String.ofList e.named ≠ String.ofList (Host.bracketed text h).chars := by
        rw [Ne, String.ofList_inj, ← hhost]
        exact Spelling.named_bracketed hhost
      split <;> simp [Host.IsBracketed, hscheme, hne]

def loopback : Spelling where
  scheme := some .https
  host := .bracketed [':', ':', '1'] (by decide)
  port := some ['4', '3', '1', '7']

/-- Of that address a single bracket is asked for. -/
theorem loopback_not_proven : ¬ ∀ e : Spelling, serverName? (withScheme e.text) = e.proven? := by
  intro h
  have hasked : serverName? (withScheme loopback.text) = some "[" := by decide +kernel
  have hhost : loopback.proven? = some "[::1]" := by decide
  have heq := h loopback
  rw [hasked, hhost] at heq
  exact absurd heq (by decide)

end PgMetrics.Telemetry.Endpoint
