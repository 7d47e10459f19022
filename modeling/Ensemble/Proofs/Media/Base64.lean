import Ensemble.Media.Base64
import Ensemble.Proofs.Except
import Ensemble.Proofs.Text.Utf8
import Ensemble.Text.Characters
import Mathlib.Data.List.Basic

/-!
# Base64 round trip

Every byte string has one spelling in base64, which `encode` writes: it is
read back (`decode_encode`), and what is read is nothing else
(`eq_encode_of_decode`). Groups of three bytes and four symbols are undone
one by one; the last group may be padded, and is read symbol by symbol
(`of_lastValues`). All symbols are ASCII, so a spelling is a text as well
(`encode_spelling`).
-/

namespace Ensemble.Base64

/-! ## Symbols -/

theorem value?_symbol {n : Nat} (h : n < 64) : value? (symbol n) = some n := by
  have hall : ∀ n < 64, value? (symbol n) = some n := by decide
  exact hall n h

theorem symbol_of_value? {b : UInt8} {n : Nat} (h : value? b = some n) : n < 64 ∧ symbol n = b := by
  have hself : UInt8.ofNat b.toNat = b := UInt8.ofNat_toNat
  simp only [value?, Bool.and_eq_true, decide_eq_true_eq, UInt8.le_iff_toNat_le] at h
  rw [symbol]
  split at h
  · rename_i hupper
    obtain rfl := Option.some.inj h
    have hrange : 65 ≤ b.toNat ∧ b.toNat ≤ 90 := hupper
    refine ⟨by omega, ?_⟩
    rw [if_pos (by omega), Nat.sub_add_cancel hrange.1, hself]
  split at h
  · rename_i hlower
    obtain rfl := Option.some.inj h
    have hrange : 97 ≤ b.toNat ∧ b.toNat ≤ 122 := hlower
    refine ⟨by omega, ?_⟩
    rw [if_neg (by omega), if_pos (by omega), Nat.add_sub_cancel, Nat.sub_add_cancel hrange.1,
      hself]
  split at h
  · rename_i hdigit
    obtain rfl := Option.some.inj h
    have hrange : 48 ≤ b.toNat ∧ b.toNat ≤ 57 := hdigit
    refine ⟨by omega, ?_⟩
    rw [if_neg (by omega), if_neg (by omega), if_pos (by omega), Nat.add_sub_cancel,
      Nat.sub_add_cancel hrange.1, hself]
  split at h
  · rename_i hplus
    obtain rfl := Option.some.inj h
    exact ⟨by decide, (beq_iff_eq.mp hplus).symm⟩
  split at h
  · rename_i hslash
    obtain rfl := Option.some.inj h
    exact ⟨by decide, (beq_iff_eq.mp hslash).symm⟩
  · cases h

theorem valueAt_eq_ok_iff {offset : Nat} {b : UInt8} {n : Nat} :
    valueAt offset b = .ok n ↔ n < 64 ∧ b = symbol n := by
  rw [valueAt]
  constructor
  · intro h
    split at h
    · rename_i m hm
      obtain rfl := Except.ok.inj h
      obtain ⟨hlt, hsymbol⟩ := symbol_of_value? hm
      exact ⟨hlt, hsymbol.symm⟩
    · cases h
  · rintro ⟨hlt, rfl⟩
    rw [value?_symbol hlt]

theorem symbol_ne_pad {n : Nat} (h : n < 64) : symbol n ≠ pad := by
  have hall : ∀ n < 64, symbol n ≠ pad := by decide
  exact hall n h

/-! ## Groups -/

theorem toNat_ofNat {n : Nat} (h : n < 256) : (UInt8.ofNat n).toNat = n :=
  UInt8.toNat_ofNat_of_lt' h

/-- The bytes of a group are read back from its symbols. -/
theorem bytes_of_group (a b c : UInt8) :
    bytes (a.toNat / 4) (a.toNat % 4 * 16 + b.toNat / 16) (b.toNat % 16 * 4 + c.toNat / 64)
      (c.toNat % 64) = [a, b, c] := by
  have ha := a.toNat_lt
  have hb := b.toNat_lt
  have hc := c.toNat_lt
  have hfirst : a.toNat / 4 * 4 + (a.toNat % 4 * 16 + b.toNat / 16) / 16 = a.toNat := by omega
  have hsecond : (a.toNat % 4 * 16 + b.toNat / 16) % 16 * 16
      + (b.toNat % 16 * 4 + c.toNat / 64) / 4 = b.toNat := by omega
  have hthird : (b.toNat % 16 * 4 + c.toNat / 64) % 4 * 64 + c.toNat % 64 = c.toNat := by omega
  rw [bytes, hfirst, hsecond, hthird, UInt8.ofNat_toNat, UInt8.ofNat_toNat, UInt8.ofNat_toNat]

section

variable {a b c d : Nat} (ha : a < 64) (hb : b < 64)

include ha hb

/-- The symbols of a group are written again from its bytes. -/
theorem encode_bytes (hc : c < 64) (hd : d < 64) (rest : List UInt8) :
    encode (bytes a b c d ++ rest)
      = symbol a :: symbol b :: symbol c :: symbol d :: encode rest := by
  have hfirst : (a * 4 + b / 16) / 4 = a := by omega
  have hsecond : (a * 4 + b / 16) % 4 * 16 + (b % 16 * 16 + c / 4) / 16 = b := by omega
  have hthird : (b % 16 * 16 + c / 4) % 16 * 4 + (c % 4 * 64 + d) / 64 = c := by omega
  have hfourth : (c % 4 * 64 + d) % 64 = d := by omega
  rw [bytes, List.cons_append, List.cons_append, List.cons_append, List.nil_append, encode,
    toNat_ofNat (by omega), toNat_ofNat (by omega),
    toNat_ofNat (by omega), hfirst, hsecond, hthird, hfourth]

/-- Two symbols leave over four bits. -/
theorem encode_one (hleft : b % 16 = 0) :
    encode ((bytes a b 0 0).take 1) = [symbol a, symbol b, pad, pad] := by
  have hfirst : (a * 4 + b / 16) / 4 = a := by omega
  have hsecond : (a * 4 + b / 16) % 4 * 16 = b := by omega
  rw [bytes, List.take_succ_cons, List.take_zero, encode, toNat_ofNat (by omega),
    hfirst, hsecond]

/-- Three symbols leave over two bits. -/
theorem encode_two (hc : c < 64) (hleft : c % 4 = 0) :
    encode ((bytes a b c 0).take 2) = [symbol a, symbol b, symbol c, pad] := by
  have hfirst : (a * 4 + b / 16) / 4 = a := by omega
  have hsecond : (a * 4 + b / 16) % 4 * 16 + (b % 16 * 16 + c / 4) / 16 = b := by omega
  have hthird : (b % 16 * 16 + c / 4) % 16 * 4 = c := by omega
  rw [bytes, List.take_succ_cons, List.take_succ_cons, List.take_zero, encode,
    toNat_ofNat (by omega), toNat_ofNat (by omega), hfirst, hsecond,
    hthird]

end

/-! ## The last group -/

variable {start place : Nat} {group : List UInt8} {values : List Nat}

/-- Once there is padding, only padding follows. -/
theorem lastValues_padded_eq_ok_iff {offset : Nat} :
    lastValues start place (some offset) group = .ok values ↔
      values = [] ∧ ∃ n, group = List.replicate n pad ∧ (n = 0 ∨ 2 ≤ place) := by
  induction group generalizing place with
  | nil =>
      simp only [lastValues, Except.ok.injEq]
      constructor
      · rintro rfl
        exact ⟨rfl, 0, rfl, .inl rfl⟩
      · rintro ⟨rfl, -⟩
        rfl
  | cons b rest ih =>
      rw [lastValues]
      constructor
      · intro h
        split at h
        · rename_i hpad
          split at h
          · cases h
          · rename_i hplace
            obtain ⟨rfl, n, rfl, -⟩ := ih.mp h
            exact ⟨rfl, n + 1, by rw [hpad, List.replicate_succ], .inr (by omega)⟩
        · cases h
      · rintro ⟨rfl, n, hgroup, hplace⟩
        cases n with
        | zero => cases hgroup
        | succ n =>
            rw [List.replicate_succ] at hgroup
            obtain ⟨rfl, rfl⟩ := List.cons.inj hgroup
            rw [if_pos rfl, if_neg (by omega)]
            exact ih.mpr ⟨rfl, n, rfl, .inr (by omega)⟩

/-- The last group is symbols and then padding, which stands at its third place or later. -/
theorem lastValues_eq_ok_iff :
    lastValues start place none group = .ok values ↔
      (∀ v ∈ values, v < 64) ∧ ∃ n, group = values.map symbol ++ List.replicate n pad ∧
        (n = 0 ∨ 2 ≤ place + values.length) := by
  induction group generalizing place values with
  | nil =>
      simp only [lastValues, Except.ok.injEq]
      constructor
      · rintro rfl
        exact ⟨nofun, 0, rfl, .inl rfl⟩
      · rintro ⟨-, n, hgroup, -⟩
        obtain ⟨hvalues, -⟩ := List.append_eq_nil_iff.mp hgroup.symm
        exact (List.map_eq_nil_iff.mp hvalues).symm
  | cons b rest ih =>
      rw [lastValues]
      constructor
      · intro h
        split at h
        · rename_i hpad
          split at h
          · cases h
          · rename_i hplace
            obtain ⟨rfl, n, rfl, -⟩ := lastValues_padded_eq_ok_iff.mp h
            exact ⟨nofun, n + 1, by rw [hpad, List.replicate_succ]; rfl, .inr (by omega)⟩
        · obtain ⟨v, hv, h⟩ := bind_eq_ok_iff.mp h
          obtain ⟨vs, hvs, h⟩ := bind_eq_ok_iff.mp h
          obtain rfl := Except.ok.inj h
          obtain ⟨hlt, rfl⟩ := valueAt_eq_ok_iff.mp hv
          obtain ⟨hvalues, n, rfl, hplace⟩ := ih.mp hvs
          refine ⟨List.forall_mem_cons.mpr ⟨hlt, hvalues⟩, n, rfl, ?_⟩
          rw [List.length_cons]
          omega
      · rintro ⟨hvalues, n, hgroup, hplace⟩
        cases values with
        | nil =>
            cases n with
            | zero => cases hgroup
            | succ n =>
                rw [List.length_nil] at hplace
                obtain ⟨rfl, rfl⟩ := List.cons.inj hgroup
                rw [if_pos rfl, if_neg (by omega)]
                exact lastValues_padded_eq_ok_iff.mpr ⟨rfl, n, rfl, .inr (by omega)⟩
        | cons v vs =>
            obtain ⟨hlt, hvalues⟩ := List.forall_mem_cons.mp hvalues
            obtain ⟨rfl, rfl⟩ := List.cons.inj hgroup
            rw [List.length_cons] at hplace
            have hplace : n = 0 ∨ 2 ≤ place + 1 + vs.length := by omega
            have hrest := ih.mpr ⟨hvalues, n, rfl, hplace⟩
            rw [if_neg (symbol_ne_pad hlt)]
            exact bind_eq_ok_iff.mpr ⟨v, valueAt_eq_ok_iff.mpr ⟨hlt, rfl⟩,
              bind_eq_ok_iff.mpr ⟨vs, hrest, rfl⟩⟩

/-- What a group of symbols and padding stands for. -/
inductive Stands : List Nat → List UInt8 → Prop
  | one {a b : Nat} (hleft : b % 16 = 0) : Stands [a, b] ((bytes a b 0 0).take 1)
  | two {a b c : Nat} (hleft : c % 4 = 0) : Stands [a, b, c] ((bytes a b c 0).take 2)
  | three {a b c d : Nat} : Stands [a, b, c, d] (bytes a b c d)

theorem decodeLast_eq_ok_iff {out : List UInt8} :
    decodeLast start group = .ok out ↔ ∃ values, lastValues start 0 none group = .ok values ∧
      2 ≤ values.length ∧ 4 ≤ group.length ∧ Stands values out := by
  rw [decodeLast, bind_eq_ok_iff]
  refine exists_congr fun values => and_congr_right fun hvalues => ?_
  dsimp only
  constructor
  · intro h
    split at h
    · cases h
    split at h
    · cases h
    rename_i hmany hfull
    refine ⟨by omega, by omega, ?_⟩
    split at h
    · split at h
      · cases h
      rename_i hleft
      obtain rfl := Except.ok.inj h
      exact .one (not_not.mp hleft)
    · split at h
      · cases h
      rename_i hleft
      obtain rfl := Except.ok.inj h
      exact .two (not_not.mp hleft)
    · obtain rfl := Except.ok.inj h
      exact .three
    · cases h
  · rintro ⟨hmany, hfull, hstands⟩
    rw [if_neg (by omega), if_neg (by omega)]
    cases hstands with
    | one hleft => exact if_neg (not_not.mpr hleft)
    | two hleft => exact if_neg (not_not.mpr hleft)
    | three => rfl

/-- A full last group is written again from what it stands for. -/
theorem encode_of_stands {out : List UInt8} (hlen : group.length = 4)
    (hvalues : lastValues start 0 none group = .ok values) (hstands : Stands values out) :
    group = encode out := by
  obtain ⟨hlt, n, rfl, -⟩ := lastValues_eq_ok_iff.mp hvalues
  rw [List.length_append, List.length_map, List.length_replicate] at hlen
  cases hstands with
  | @one a b hleft =>
      obtain ⟨ha, hb⟩ : a < 64 ∧ b < 64 := by simpa using hlt
      obtain rfl : n = 2 := Nat.add_left_cancel hlen
      rw [encode_one ha hb hleft]
      rfl
  | @two a b c hleft =>
      obtain ⟨ha, hb, hc⟩ : a < 64 ∧ b < 64 ∧ c < 64 := by simpa using hlt
      obtain rfl : n = 1 := Nat.add_left_cancel hlen
      rw [encode_two ha hb hc hleft]
      rfl
  | @three a b c d =>
      obtain ⟨ha, hb, hc, hd⟩ : a < 64 ∧ b < 64 ∧ c < 64 ∧ d < 64 := by simpa using hlt
      obtain rfl : n = 0 := Nat.add_left_cancel hlen
      have hgroup := encode_bytes ha hb hc hd []
      rw [List.append_nil] at hgroup
      rw [hgroup]
      rfl

/-- Up to three bytes are what their spelling stands for. -/
theorem stands_encode {out : List UInt8} (hne : out ≠ []) (hlen : out.length ≤ 3) :
    ∃ values n, encode out = values.map symbol ++ List.replicate n pad ∧
      (∀ v ∈ values, v < 64) ∧ 2 ≤ values.length ∧ values.length + n = 4 ∧ Stands values out := by
  match out, hne, hlen with
  | [a], _, _ =>
      have ha := a.toNat_lt
      have hbytes : (bytes (a.toNat / 4) (a.toNat % 4 * 16) 0 0).take 1 = [a] :=
        congrArg (List.take 1) (bytes_of_group a 0 0)
      have hstands : Stands [a.toNat / 4, a.toNat % 4 * 16] [a] :=
        hbytes ▸ .one (Nat.mul_mod_left ..)
      refine ⟨_, 2, rfl, ?_, by simp, rfl, hstands⟩
      simp only [List.forall_mem_cons, List.not_mem_nil, false_implies, implies_true, and_true]
      omega
  | [a, b], _, _ =>
      have ha := a.toNat_lt
      have hb := b.toNat_lt
      have hbytes : (bytes (a.toNat / 4) (a.toNat % 4 * 16 + b.toNat / 16) (b.toNat % 16 * 4) 0).take 2
          = [a, b] := congrArg (List.take 2) (bytes_of_group a b 0)
      have hstands : Stands
          [a.toNat / 4, a.toNat % 4 * 16 + b.toNat / 16, b.toNat % 16 * 4] [a, b] :=
        hbytes ▸ .two (Nat.mul_mod_left ..)
      refine ⟨_, 1, rfl, ?_, by simp, rfl, hstands⟩
      simp only [List.forall_mem_cons, List.not_mem_nil, false_implies, implies_true, and_true]
      omega
  | [a, b, c], _, _ =>
      have ha := a.toNat_lt
      have hb := b.toNat_lt
      have hc := c.toNat_lt
      have hstands := bytes_of_group a b c ▸ Stands.three
      refine ⟨_, 0, rfl, ?_, by simp, rfl, hstands⟩
      simp only [List.forall_mem_cons, List.not_mem_nil, false_implies, implies_true, and_true]
      omega

theorem decodeLast_encode {out : List UInt8} (hne : out ≠ []) (hlen : out.length ≤ 3) :
    decodeLast start (encode out) = .ok out := by
  obtain ⟨values, n, hout, hlt, hmany, hfour, hstands⟩ := stands_encode hne hlen
  have hvalues : lastValues start 0 none (encode out) = .ok values :=
    lastValues_eq_ok_iff.mpr ⟨hlt, n, hout, .inr (by omega)⟩
  have hfull : (encode out).length = 4 := by
    rw [hout, List.length_append, List.length_map, List.length_replicate, hfour]
  exact decodeLast_eq_ok_iff.mpr ⟨values, hvalues, hmany, Nat.le_of_eq hfull.symm, hstands⟩

/-! ## Whole texts -/

/-- Groups of four symbols before the last one are read at once. -/
theorem decodeFrom_group {a b c d : Nat} (ha : a < 64) (hb : b < 64) (hc : c < 64) (hd : d < 64)
    {rest : List UInt8} (hrest : rest ≠ []) {out : List UInt8} :
    decodeFrom start (symbol a :: symbol b :: symbol c :: symbol d :: rest) = .ok out ↔
      ∃ others, decodeFrom (start + 4) rest = .ok others ∧ out = bytes a b c d ++ others := by
  obtain ⟨e, rest, rfl⟩ := List.exists_cons_of_ne_nil hrest
  have hvalue {n offset : Nat} (hn : n < 64) : valueAt offset (symbol n) = .ok n :=
    valueAt_eq_ok_iff.mpr ⟨hn, rfl⟩
  have hgroup : decodeFrom start (symbol a :: symbol b :: symbol c :: symbol d :: e :: rest)
      = (bytes a b c d ++ ·) <$> decodeFrom (start + 4) (e :: rest) := by
    rw [decodeFrom, hvalue ha, hvalue hb, hvalue hc, hvalue hd]
    rfl
  rw [hgroup]
  cases decodeFrom (start + 4) (e :: rest) with
  | error fault => exact ⟨nofun, fun ⟨_, h, _⟩ => nomatch h⟩
  | ok others => exact ⟨fun h => ⟨others, rfl, (Except.ok.inj h).symm⟩,
      fun ⟨_, h, hout⟩ => by rw [hout, ← Except.ok.inj h]; rfl⟩

theorem encode_ne_nil {out : List UInt8} (h : out ≠ []) : encode out ≠ [] := by
  fun_cases encode out with
  | case1 => exact absurd rfl h
  | case2 => nofun
  | case3 => nofun
  | case4 => nofun

theorem decodeFrom_encode (start : Nat) (out : List UInt8) :
    decodeFrom start (encode out) = .ok out := by
  fun_induction encode out generalizing start with
  | case1 => rfl
  | case2 a => exact decodeLast_encode (List.cons_ne_nil a []) (by simp)
  | case3 a b => exact decodeLast_encode (List.cons_ne_nil a [b]) (by simp)
  | case4 a b c rest ih =>
      have ha := a.toNat_lt
      have hb := b.toNat_lt
      have hc := c.toNat_lt
      by_cases hrest : rest = []
      · subst hrest
        exact decodeLast_encode (List.cons_ne_nil a [b, c]) (by simp)
      · refine (decodeFrom_group (by omega) (by omega) (by omega) (by omega)
          (encode_ne_nil hrest)).mpr ⟨rest, ih _, ?_⟩
        rw [bytes_of_group]
        rfl

theorem eq_encode_of_decodeFrom {start : Nat} {text out : List UInt8}
    (h : decodeFrom start text = .ok out) : text = encode out := by
  fun_induction decodeFrom start text generalizing out with
  | case1 start a b c d e rest ih =>
      obtain ⟨a', ha, h⟩ := bind_eq_ok_iff.mp h
      obtain ⟨b', hb, h⟩ := bind_eq_ok_iff.mp h
      obtain ⟨c', hc, h⟩ := bind_eq_ok_iff.mp h
      obtain ⟨d', hd, h⟩ := bind_eq_ok_iff.mp h
      obtain ⟨others, hothers, h⟩ := bind_eq_ok_iff.mp h
      obtain rfl := Except.ok.inj h
      obtain ⟨hltA, rfl⟩ := valueAt_eq_ok_iff.mp ha
      obtain ⟨hltB, rfl⟩ := valueAt_eq_ok_iff.mp hb
      obtain ⟨hltC, rfl⟩ := valueAt_eq_ok_iff.mp hc
      obtain ⟨hltD, rfl⟩ := valueAt_eq_ok_iff.mp hd
      rw [encode_bytes hltA hltB hltC hltD, ih hothers]
  | case2 start =>
      obtain rfl := Except.ok.inj h
      rfl
  | case3 start group hgroup hne =>
      obtain ⟨values, hvalues, -, hfull, hstands⟩ := decodeLast_eq_ok_iff.mp h
      have hlen : group.length ≤ 4 := by
        match group, hgroup with
        | a :: b :: c :: d :: e :: rest, hgroup => exact (hgroup a b c d e rest rfl).elim
        | [], _ | [_], _ | [_, _], _ | [_, _, _], _ | [_, _, _, _], _ => simp
      exact encode_of_stands (Nat.le_antisymm hlen hfull) hvalues hstands

theorem length_encode_mod (out : List UInt8) : (encode out).length % 4 = 0 := by
  fun_induction encode out with
  | case1 => rfl
  | case2 => exact Nat.mod_self 4
  | case3 => exact Nat.mod_self 4
  | case4 a b c rest ih =>
      simp only [List.length_cons]
      omega

/-- Every byte string is read back from its spelling. -/
theorem decode_encode (out : List UInt8) : decode (encode out) = .ok out := by
  have hmod := length_encode_mod out
  rw [decode]
  split
  · rw [if_neg (by omega), decodeFrom_encode]
  · rename_i hlast
    rw [← decodeFrom_encode 0 out, List.getLast?_eq_none_iff.mp hlast]
    rfl

/-- What is read is the spelling of some bytes, and nothing else. -/
theorem eq_encode_of_decode {text out : List UInt8} (h : decode text = .ok out) :
    text = encode out := by
  rw [decode] at h
  split at h
  · split at h
    · cases h
    · exact eq_encode_of_decodeFrom h
  · rename_i hlast
    obtain rfl := Except.ok.inj h
    exact List.getLast?_eq_none_iff.mp hlast

theorem decode_eq_ok_iff {text out : List UInt8} : decode text = .ok out ↔ text = encode out :=
  ⟨eq_encode_of_decode, fun h => h ▸ decode_encode out⟩

/-! ## Spellings as texts -/

/-- The spelling of bytes, as characters. -/
def spelling (out : List UInt8) : List Char := (encode out).map fun b => Char.ofNat b.toNat

/-- The spelling is padded to groups of four symbols. -/
example : spelling [102, 111, 111, 98] = "Zm9vYg==".toList := by decide

/-- A byte that may stand in a spelling. -/
def IsSymbol (b : UInt8) : Prop := b = pad ∨ ∃ n < 64, b = symbol n

theorem isSymbol_of_mem_encode (out : List UInt8) : ∀ b ∈ encode out, IsSymbol b := by
  fun_induction encode out with
  | case1 => exact nofun
  | case2 a =>
      have ha := a.toNat_lt
      simp only [List.forall_mem_cons]
      exact ⟨.inr ⟨_, by omega, rfl⟩, .inr ⟨_, by omega, rfl⟩, .inl rfl, .inl rfl, nofun⟩
  | case3 a b =>
      have ha := a.toNat_lt
      have hb := b.toNat_lt
      simp only [List.forall_mem_cons]
      exact ⟨.inr ⟨_, by omega, rfl⟩, .inr ⟨_, by omega, rfl⟩, .inr ⟨_, by omega, rfl⟩, .inl rfl,
        nofun⟩
  | case4 a b c rest ih =>
      have ha := a.toNat_lt
      have hb := b.toNat_lt
      have hc := c.toNat_lt
      simp only [List.forall_mem_cons]
      exact ⟨.inr ⟨_, by omega, rfl⟩, .inr ⟨_, by omega, rfl⟩, .inr ⟨_, by omega, rfl⟩,
        .inr ⟨_, by omega, rfl⟩, ih⟩

/-- A symbol is one byte as a character too, and no blank. -/
theorem IsSymbol.char {b : UInt8} (h : IsSymbol b) :
    String.utf8EncodeChar (Char.ofNat b.toNat) = [b] ∧
      Text.isBlank (Char.ofNat b.toNat) = false := by
  have hall : ∀ n < 64, String.utf8EncodeChar (Char.ofNat (symbol n).toNat) = [symbol n] ∧
      Text.isBlank (Char.ofNat (symbol n).toNat) = false := by decide
  rcases h with rfl | ⟨n, hn, rfl⟩
  · decide
  · exact hall n hn

theorem encode_spelling (out : List UInt8) :
    Text.encode (String.ofList (spelling out)) = encode out := by
  rw [Text.encode_ofList, spelling, List.flatMap_map]
  calc (encode out).flatMap (fun b => String.utf8EncodeChar (Char.ofNat b.toNat))
      = (encode out).flatMap fun b => [b] :=
        List.flatMap_congr fun b hb => (isSymbol_of_mem_encode out b hb).char.1
    _ = encode out := List.flatMap_singleton' _

theorem spelling_ne_nil {out : List UInt8} (h : out ≠ []) : spelling out ≠ [] := by
  rw [spelling, ne_eq, List.map_eq_nil_iff]
  exact encode_ne_nil h

theorem not_blank_of_mem_spelling {out : List UInt8} {c : Char} (h : c ∈ spelling out) :
    Text.isBlank c = false := by
  obtain ⟨b, hb, rfl⟩ := List.mem_map.mp h
  exact (isSymbol_of_mem_encode out b hb).char.2

theorem colon_not_mem_spelling (out : List UInt8) : ':' ∉ spelling out := by
  have hall : ∀ n < 64, Char.ofNat (symbol n).toNat ≠ ':' := by decide
  intro h
  obtain ⟨b, hb, hcolon⟩ := List.mem_map.mp h
  rcases isSymbol_of_mem_encode out b hb with rfl | ⟨n, hn, rfl⟩
  · exact absurd hcolon (by decide)
  · exact hall n hn hcolon

/-- A text that is read as bytes is their spelling. -/
theorem decode_text_eq_ok_iff {s : String} {out : List UInt8} :
    decode (Text.encode s) = .ok out ↔ s.toList = spelling out := by
  rw [decode_eq_ok_iff, ← encode_spelling out, Text.encode_inj]
  exact ⟨fun h => h ▸ String.toList_ofList, fun h => h ▸ String.ofList_toList.symm⟩

end Ensemble.Base64
