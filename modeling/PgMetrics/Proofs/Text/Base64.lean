import Mathlib.Data.List.TakeWhile
import PgMetrics.Text.Base64

/-! # Bytes have one written form

Whatever decodes is the written form of the bytes that it decodes to, so two texts that decode to
the same bytes are the same text.  The written form of any bytes decodes to them.
-/
namespace PgMetrics.Text.Base64

def ascii (cs : List Char) : List UInt8 := cs.map fun c => UInt8.ofNat c.toNat

theorem ascii_append (cs ds : List Char) : ascii (cs ++ ds) = ascii cs ++ ascii ds :=
  List.map_append

theorem value?_table : ∀ n < 256, ∀ v ∈ value? (UInt8.ofNat n),
    v < 64 ∧ UInt8.ofNat (symbol v).toNat = UInt8.ofNat n := by
  decide +kernel

theorem symbol_of_value? {b : UInt8} {v : Nat} (h : value? b = some v) :
    v < 64 ∧ UInt8.ofNat (symbol v).toNat = b := by
  have hb : UInt8.ofNat b.toNat = b := UInt8.ofNat_toNat
  have htable := value?_table b.toNat b.toNat_lt v
  rw [hb] at htable
  exact htable h

theorem symbol_eq {v w : Nat} (h : v % 64 = w % 64) : symbol v = symbol w := by
  unfold symbol
  rw [h]

theorem symbols_of_values? {i : Nat} {symbols : List UInt8} {vs : List Nat}
    (h : values? i symbols = .ok vs) :
    (∀ v ∈ vs, v < 64) ∧ symbols = ascii (vs.map symbol) := by
  induction symbols generalizing i vs with
  | nil =>
    cases h
    exact ⟨List.forall_mem_nil _, rfl⟩
  | cons b rest ih =>
    rw [values?] at h
    cases hb : value? b with
    | none =>
      rw [hb] at h
      cases h
    | some v =>
      rw [hb] at h
      cases hrest : values? (i + 1) rest with
      | error fault =>
        rw [hrest] at h
        cases h
      | ok ws =>
        rw [hrest] at h
        cases h
        obtain ⟨hlt, hsymbol⟩ := symbol_of_value? hb
        obtain ⟨hws, hrestSymbols⟩ := ih hrest
        refine ⟨List.forall_mem_cons.mpr ⟨hlt, hws⟩, ?_⟩
        rw [List.map_cons, ascii, List.map_cons, hsymbol, ← ascii, ← hrestSymbols]

section
variable {a b c d : Nat}

theorem encode_join (hb : b < 64) (hc : c < 64) (hd : d < 64) (rest : List UInt8) :
    encode (join a b c d ++ rest) =
      symbol a :: symbol b :: symbol c :: symbol d :: encode rest := by
  unfold join
  rw [List.cons_append, List.cons_append, List.cons_append, List.nil_append, encode]
  simp only [UInt8.toNat_ofNat', List.cons.injEq, and_true]
  refine ⟨symbol_eq ?_, symbol_eq ?_, symbol_eq ?_, symbol_eq ?_⟩ <;> omega

theorem encode_one (hb : b < 64) (hlast : b % 16 = 0) :
    encode ((join a b 0 0).take 1) = [symbol a, symbol b, '=', '='] := by
  change encode [UInt8.ofNat (a * 4 + b / 16)] = _
  rw [encode]
  simp only [UInt8.toNat_ofNat', List.cons.injEq, and_true]
  refine ⟨symbol_eq ?_, symbol_eq ?_⟩ <;> omega

theorem encode_two (hb : b < 64) (hc : c < 64) (hlast : c % 4 = 0) :
    encode ((join a b c 0).take 2) = [symbol a, symbol b, symbol c, '='] := by
  change encode [UInt8.ofNat (a * 4 + b / 16), UInt8.ofNat (b * 16 + c / 4)] = _
  rw [encode]
  simp only [UInt8.toNat_ofNat', List.cons.injEq, and_true]
  refine ⟨symbol_eq ?_, symbol_eq ?_, symbol_eq ?_⟩ <;> omega

/-- The pads at the end of a group. -/
theorem eq_pads {group : List UInt8}
    (h : (group.dropWhile (· != pad)).any (· != pad) = false) :
    group = group.takeWhile (· != pad) ++
      List.replicate (group.dropWhile (· != pad)).length pad := by
  have hpads : ∀ b ∈ group.dropWhile (· != pad), b = pad := by simpa using h
  rw [← List.eq_replicate_of_mem hpads, List.takeWhile_append_dropWhile]

end

theorem lastGroup?_eq {i : Nat} {group bytes : List UInt8} (hlength : group.length ≤ 4)
    (h : lastGroup? i group = .ok bytes) : group = ascii (encode bytes) := by
  dsimp only [lastGroup?] at h
  cases hvs : values? i (group.takeWhile (· != pad)) with
  | error fault =>
    rw [hvs] at h
    cases h
  | ok vs =>
    obtain ⟨hlt, hsymbols⟩ := symbols_of_values? hvs
    rw [hvs] at h
    dsimp only at h
    split at h
    · cases h
    split at h
    · cases h
    next hfew hpads =>
    have hgroup := eq_pads (Bool.eq_false_iff.mpr hpads)
    rw [hsymbols] at hgroup
    generalize group.dropWhile (· != pad) = pads at *
    have hsize : vs.length + pads.length ≤ 4 := by
      rw [hgroup] at hlength
      simpa [ascii] using hlength
    rw [hgroup]
    rcases vs with _ | ⟨a, _ | ⟨b, _ | ⟨c, _ | ⟨d, more⟩⟩⟩⟩
    · cases h
      have hnone : pads = [] := by simpa using hfew
      rw [hnone]
      rfl
    · cases h
    · dsimp only at h
      split at h
      · cases h
      split at h
      · cases h
      next htwo hlast =>
      cases h
      rw [not_not.mp htwo, encode_one (hlt b (by simp)) (not_not.mp hlast)]
      rfl
    · dsimp only at h
      split at h
      · cases h
      split at h
      · cases h
      next hone hlast =>
      cases h
      rw [not_not.mp hone, encode_two (hlt b (by simp)) (hlt c (by simp)) (not_not.mp hlast)]
      rfl
    · cases h
      simp only [List.length_cons] at hsize
      obtain rfl : more = [] := List.length_eq_zero_iff.mp (by omega)
      obtain rfl : pads = [] := List.length_eq_zero_iff.mp (by omega)
      rw [← List.append_nil (join a b c d), encode_join (hlt b (by simp)) (hlt c (by simp))
        (hlt d (by simp))]
      rfl

theorem length_of_values? {i : Nat} {symbols : List UInt8} {vs : List Nat}
    (h : values? i symbols = .ok vs) : symbols.length = vs.length := by
  rw [(symbols_of_values? h).2, ascii, List.length_map, List.length_map]

theorem groups?_eq {i : Nat} {text bytes : List UInt8} (h : groups? i text = .ok bytes) :
    text = ascii (encode bytes) := by
  induction i, text using groups?.induct generalizing bytes with
  | case1 i a b c d e rest va vb vc vd hvs tail htail ih =>
    rw [groups?, hvs] at h
    dsimp only at h
    rw [htail] at h
    cases h
    obtain ⟨hlt, hsymbols⟩ := symbols_of_values? hvs
    rw [encode_join (hlt vb (by simp)) (hlt vc (by simp)) (hlt vd (by simp))]
    change [a, b, c, d] ++ (e :: rest) = ascii ([va, vb, vc, vd].map symbol ++ encode tail)
    rw [ascii_append, ← hsymbols, ← ih htail]
  | case2 i a b c d e rest va vb vc vd hvs fault htail =>
    rw [groups?, hvs] at h
    dsimp only at h
    rw [htail] at h
    cases h
  | case3 i a b c d e rest vs hfour hvs =>
    have hlength := length_of_values? hvs
    match vs with
    | [va, vb, vc, vd] => exact absurd rfl (hfour va vb vc vd)
    | [] | [_] | [_, _] | [_, _, _] | _ :: _ :: _ :: _ :: _ :: _ => simp at hlength
  | case4 i a b c d e rest fault hvs =>
    rw [groups?, hvs] at h
    cases h
  | case5 i group hshort =>
    rw [groups?] at h
    · refine lastGroup?_eq ?_ h
      match group with
      | [] | [_] | [_, _] | [_, _, _] | [_, _, _, _] => simp
      | a :: b :: c :: d :: e :: rest => exact absurd rfl (hshort a b c d e rest)
    · exact hshort

theorem eq_encode_of_decode {text bytes : List UInt8} (h : decode text = .ok bytes) :
    text = ascii (encode bytes) := by
  unfold decode at h
  split at h
  · cases h
  · exact groups?_eq h

/-- Bytes have one written form. -/
theorem eq_of_decode {first second bytes : List UInt8} (hfirst : decode first = .ok bytes)
    (hsecond : decode second = .ok bytes) : first = second := by
  rw [eq_encode_of_decode hfirst, eq_encode_of_decode hsecond]

theorem value?_symbol_table : ∀ v < 64,
    value? (UInt8.ofNat (symbol v).toNat) = some v ∧ UInt8.ofNat (symbol v).toNat ≠ pad := by
  decide +kernel

theorem symbol_mod (v : Nat) : symbol (v % 64) = symbol v := symbol_eq (Nat.mod_mod v 64)

theorem value?_symbol (v : Nat) : value? (UInt8.ofNat (symbol v).toNat) = some (v % 64) := by
  rw [← symbol_mod]
  exact (value?_symbol_table (v % 64) (Nat.mod_lt v (by decide))).1

theorem symbol_ne_pad (v : Nat) : UInt8.ofNat (symbol v).toNat ≠ pad := by
  rw [← symbol_mod]
  exact (value?_symbol_table (v % 64) (Nat.mod_lt v (by decide))).2

theorem values?_symbols (i : Nat) (vs : List Nat) :
    values? i (ascii (vs.map symbol)) = .ok (vs.map (· % 64)) := by
  induction vs generalizing i with
  | nil => rfl
  | cons v rest ih =>
    change values? i (UInt8.ofNat (symbol v).toNat :: ascii (rest.map symbol)) = _
    rw [values?, value?_symbol]
    dsimp only
    rw [ih]
    rfl

/-- Symbols and pads come apart again. -/
theorem span_symbols (vs : List Nat) (n : Nat) :
    (ascii (vs.map symbol) ++ List.replicate n pad).takeWhile (· != pad) =
      ascii (vs.map symbol) ∧
    (ascii (vs.map symbol) ++ List.replicate n pad).dropWhile (· != pad) =
      List.replicate n pad := by
  have hsymbols : ∀ b ∈ ascii (vs.map symbol), (b != pad) = true := by
    intro b hb
    obtain ⟨c, hc, rfl⟩ := List.mem_map.mp hb
    obtain ⟨v, -, rfl⟩ := List.mem_map.mp hc
    exact bne_iff_ne.mpr (symbol_ne_pad v)
  rw [List.takeWhile_append_of_pos hsymbols, List.dropWhile_append_of_pos hsymbols]
  cases n <;> simp [List.replicate_succ]

section
variable (i v w x y : Nat)

theorem lastGroup?_two_symbols (h : w % 16 = 0) :
    lastGroup? i (ascii [symbol v, symbol w, '=', '=']) =
      .ok [UInt8.ofNat (v % 64 * 4 + w % 64 / 16)] := by
  change lastGroup? i (ascii ([v, w].map symbol) ++ List.replicate 2 pad) = _
  have hlast : w % 64 % 16 = 0 := by omega
  rw [lastGroup?, (span_symbols [v, w] 2).1, (span_symbols [v, w] 2).2, values?_symbols]
  simp [hlast, join]

theorem lastGroup?_three_symbols (h : x % 4 = 0) :
    lastGroup? i (ascii [symbol v, symbol w, symbol x, '=']) =
      .ok [UInt8.ofNat (v % 64 * 4 + w % 64 / 16), UInt8.ofNat (w % 64 * 16 + x % 64 / 4)] := by
  change lastGroup? i (ascii ([v, w, x].map symbol) ++ List.replicate 1 pad) = _
  have hlast : x % 64 % 4 = 0 := by omega
  rw [lastGroup?, (span_symbols [v, w, x] 1).1, (span_symbols [v, w, x] 1).2, values?_symbols]
  simp [hlast, join]

theorem lastGroup?_four_symbols :
    lastGroup? i (ascii [symbol v, symbol w, symbol x, symbol y]) =
      .ok (join (v % 64) (w % 64) (x % 64) (y % 64)) := by
  change lastGroup? i (ascii ([v, w, x, y].map symbol) ++ List.replicate 0 pad) = _
  rw [lastGroup?, (span_symbols [v, w, x, y] 0).1, (span_symbols [v, w, x, y] 0).2,
    values?_symbols]
  simp

end

/-- Three bytes are what their four symbols carry. -/
theorem join_symbols (a b c : UInt8) :
    join (a.toNat / 4 % 64) ((a.toNat * 16 + b.toNat / 16) % 64)
      ((b.toNat * 4 + c.toNat / 64) % 64) (c.toNat % 64) = [a, b, c] := by
  have ha := a.toNat_lt
  have hb := b.toNat_lt
  have hc := c.toNat_lt
  simp only [join, List.cons.injEq, and_true, ← UInt8.toNat_inj, UInt8.toNat_ofNat']
  refine ⟨?_, ?_, ?_⟩ <;> omega

theorem eq_pad_or_symbol {c : Char} {bytes : List UInt8} (h : c ∈ encode bytes) :
    c = '=' ∨ ∃ v, c = symbol v := by
  fun_induction encode bytes with
  | case1 => cases h
  | case2 a =>
    simp only [List.mem_cons, List.not_mem_nil, or_false] at h
    rcases h with rfl | rfl | rfl | rfl
    · exact .inr ⟨_, rfl⟩
    · exact .inr ⟨_, rfl⟩
    · exact .inl rfl
    · exact .inl rfl
  | case3 a b =>
    simp only [List.mem_cons, List.not_mem_nil, or_false] at h
    rcases h with rfl | rfl | rfl | rfl
    · exact .inr ⟨_, rfl⟩
    · exact .inr ⟨_, rfl⟩
    · exact .inr ⟨_, rfl⟩
    · exact .inl rfl
  | case4 a b d rest ih =>
    simp only [List.mem_cons] at h
    rcases h with rfl | rfl | rfl | rfl | hrest
    · exact .inr ⟨_, rfl⟩
    · exact .inr ⟨_, rfl⟩
    · exact .inr ⟨_, rfl⟩
    · exact .inr ⟨_, rfl⟩
    · exact ih hrest

theorem length_encode (bytes : List UInt8) : (encode bytes).length % 4 = 0 := by
  fun_induction encode bytes with
  | case1 => rfl
  | case2 => simp
  | case3 => simp
  | case4 a b c rest ih =>
    simp only [List.length_cons]
    omega

/-- Every group is read as the bytes that it was written for. -/
theorem groups?_encode (i : Nat) (bytes : List UInt8) :
    groups? i (ascii (encode bytes)) = .ok bytes := by
  fun_induction encode bytes generalizing i with
  | case1 => rfl
  | case2 a =>
    have ha := a.toNat_lt
    refine (lastGroup?_two_symbols i (a.toNat / 4) (a.toNat * 16) (by omega)).trans ?_
    simp only [Except.ok.injEq, List.cons.injEq, and_true, ← UInt8.toNat_inj, UInt8.toNat_ofNat']
    omega
  | case3 a b =>
    have ha := a.toNat_lt
    have hb := b.toNat_lt
    refine (lastGroup?_three_symbols i (a.toNat / 4) (a.toNat * 16 + b.toNat / 16) (b.toNat * 4)
      (by omega)).trans ?_
    simp only [Except.ok.injEq, List.cons.injEq, and_true, ← UInt8.toNat_inj, UInt8.toNat_ofNat']
    constructor <;> omega
  | case4 a b c rest ih =>
    cases hrest : ascii (encode rest) with
    | nil =>
      have hnone : rest = [] := by
        have hread := ih 0
        rw [hrest] at hread
        cases hread
        rfl
      subst hnone
      refine (lastGroup?_four_symbols i (a.toNat / 4) (a.toNat * 16 + b.toNat / 16)
        (b.toNat * 4 + c.toNat / 64) c.toNat).trans ?_
      rw [join_symbols]
    | cons e more =>
      have hvalues := values?_symbols i [a.toNat / 4, a.toNat * 16 + b.toNat / 16,
        b.toNat * 4 + c.toNat / 64, c.toNat]
      have hmore : groups? (i + 4) (e :: more) = .ok rest := hrest ▸ ih (i + 4)
      simp only [ascii, List.map_cons, List.map_nil] at hrest hvalues ⊢
      rw [hrest, groups?, hvalues]
      dsimp only
      rw [hmore]
      dsimp only
      rw [join_symbols]
      rfl

/-- The written form of bytes decodes to them. -/
theorem decode_encode (bytes : List UInt8) : decode (ascii (encode bytes)) = .ok bytes := by
  have hstray : strayEnd? (ascii (encode bytes)) = none := by
    unfold strayEnd?
    split
    · refine if_neg ?_
      have hlength := length_encode bytes
      simp [ascii, hlength]
    · rfl
  rw [decode, hstray]
  exact groups?_encode 0 bytes

end PgMetrics.Text.Base64
