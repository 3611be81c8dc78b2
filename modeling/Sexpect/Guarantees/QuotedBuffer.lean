import Sexpect.Guarantees.Requests
import Sexpect.Guarantees.Search
import Sexpect.Source.Args

/-!
# What `get -expbuf` prints can be fed back

The text that `cli_dump_cstring` prints for a sequence of octets is printable and
free of quotes, and `strunesc` makes the octets of it again: every escape that is
printed ends where it ends, whatever follows.  As the argument of
`expect -cstring -exact` it is the pattern the server looks for.
-/
namespace Sexpect.Guarantees
open Sexpect.Lib Sexpect.Source

/-- An octet between two bounds is one of finitely many. -/
theorem forall_octet {P : UInt8 → Prop} (h : ∀ n < 256, P (UInt8.ofNat n)) (c : UInt8) : P c := by
  have hc := h c.toNat c.toNat_lt
  rwa [UInt8.ofNat_toNat] at hc

theorem dumpOctet_printable (c : UInt8) :
    ∀ d ∈ dumpOctet c, 0x20 ≤ d ∧ d ≤ 0x7e ∧ d ≠ octet '\'' := by
  have hall : ∀ n < 256, (dumpOctet (UInt8.ofNat n)).all
      (fun d => decide (0x20 ≤ d ∧ d ≤ 0x7e ∧ d ≠ octet '\'')) = true := by
    decide +kernel
  revert c
  apply forall_octet
  intro n hn d hd
  exact of_decide_eq_true (List.all_eq_true.mp (hall n hn) d hd)

/-- The two digits behind `\x`. -/
theorem hexEscape_digits (c : UInt8) (rest : Bytes) :
    hexEscape (hexDigit (c.toNat / 16) :: hexDigit (c.toNat % 16) :: rest) = some (c, rest) := by
  have hdigits : ∀ c : UInt8, isxdigit (hexDigit (c.toNat / 16)) = true ∧
      isxdigit (hexDigit (c.toNat % 16)) = true ∧
      UInt8.ofNat (cH2 (hexDigit (c.toNat / 16)) (hexDigit (c.toNat % 16))) = c := by
    apply forall_octet
    decide +kernel
  obtain ⟨h1, h2, hc⟩ := hdigits c
  simp [hexEscape, h1, h2, hc]

/-- A printed octet is itself or an escape for it. -/
theorem dumpOctet_cases (c : UInt8) :
    (c ≠ octet '\\' ∧ c ≠ 0 ∧ dumpOctet c = [c]) ∨
      ∃ escape, dumpOctet c = octet '\\' :: escape ∧
        ∀ rest, strunescEscape (escape ++ rest) = some (c, rest) := by
  by_cases hquote : c = octet '\''
  · subst hquote
    exact .inr ⟨_, rfl, fun rest => rfl⟩
  by_cases hback : c = octet '\\'
  · subst hback
    exact .inr ⟨_, rfl, fun rest => rfl⟩
  by_cases hplain : c ≥ 0x20 ∧ c ≤ 0x7e
  · refine .inl ⟨hback, ?_, ?_⟩
    · rintro rfl
      exact absurd hplain.1 (by decide)
    · rw [dumpOctet, if_neg hquote, if_neg hback, if_pos hplain]
  by_cases hletter : c = 7 ∨ c = 8 ∨ c = 12 ∨ c = 10 ∨ c = 13 ∨ c = 9 ∨ c = 11
  · obtain rfl | rfl | rfl | rfl | rfl | rfl | rfl := hletter
    all_goals exact .inr ⟨_, rfl, fun rest => rfl⟩
  simp only [not_or] at hletter
  obtain ⟨ha, hb, hf, hn, hr, ht, hv⟩ := hletter
  refine .inr ⟨[octet 'x', hexDigit (c.toNat / 16), hexDigit (c.toNat % 16)], ?_, ?_⟩
  swap
  · intro rest
    exact hexEscape_digits c rest
  rw [dumpOctet, if_neg hquote, if_neg hback, if_neg hplain, if_neg ha, if_neg hb, if_neg hf,
    if_neg hn, if_neg hr, if_neg ht, if_neg hv]

theorem dumpText_cons (c : UInt8) (b : Bytes) : dumpText (c :: b) = dumpOctet c ++ dumpText b := rfl

theorem dumpOctet_length (c : UInt8) : 0 < (dumpOctet c).length := by
  obtain ⟨-, -, h⟩ | ⟨escape, h, -⟩ := dumpOctet_cases c <;> simp [h]

/-- The reader takes the escapes apart where the printer put them together. -/
theorem strunescLoop_dumpText (b : Bytes) (n : Nat) (hn : (dumpText b).length ≤ n) :
    strunescLoop n (dumpText b) = some b := by
  induction b generalizing n with
  | nil => cases n <;> rfl
  | cons c b ih =>
    rw [dumpText_cons] at hn ⊢
    rw [List.length_append] at hn
    have hpos := dumpOctet_length c
    obtain ⟨n, rfl⟩ : ∃ k, n = k + 1 := ⟨n - 1, by omega⟩
    have hrest := ih n (by omega)
    obtain ⟨hc, -, htext⟩ | ⟨escape, htext, hescape⟩ := dumpOctet_cases c
    · rw [htext, List.singleton_append, strunescLoop, if_neg hc, hrest]
      rfl
    · rw [htext, List.cons_append, strunescLoop, if_pos rfl, hescape]
      simp only [hrest]
      rfl

theorem dumpText_printable (b : Bytes) :
    ∀ d ∈ dumpText b, 0x20 ≤ d ∧ d ≤ 0x7e ∧ d ≠ octet '\'' := by
  intro d hd
  obtain ⟨c, -, hc⟩ := List.mem_flatMap.mp hd
  exact dumpOctet_printable c d hc

theorem strunesc_dumpText (b : Bytes) : strunesc (dumpText b) = some b := by
  have hnul : (0 : UInt8) ∉ dumpText b := by
    intro h
    exact absurd (dumpText_printable b 0 h).1 (by decide)
  rw [strunesc, cstring_of_not_mem hnul]
  exact strunescLoop_dumpText b _ le_rfl

/-! ## The pattern of `expect` -/

/-- The arguments `-cstring -exact T` for the text of a pattern. -/
theorem getargsExpect_dumpText (b : Bytes) (hnul : (0 : UInt8) ∉ b) (hne : b ≠ []) :
    getargsExpect [ascii "-cstring", ascii "-exact", dumpText b] =
      .ok { expflags := passExpectExact, pattern := some b } := by
  have hargs : expectArgs 3 [ascii "-cstring", ascii "-exact", dumpText b] {} =
      .ok { opts := { expflags := passExpectExact, pattern := some (dumpText b) }, cstring := true } :=
    rfl
  have hused : usedPattern true (dumpText b) = .ok b := by
    simp [usedPattern, strunesc_dumpText, cstring_of_not_mem hnul, bind, Except.bind, hne]
  simp only [getargsExpect, List.length_cons, List.length_nil, hargs, bind, Except.bind]
  simp only [expectPattern, hused, bind, Except.bind]
  rfl

/-- What the server looks for on behalf of a client with these options. -/
theorem servExpect_exact (host : Host) (b : Bytes) (hnul : (0 : UInt8) ∉ b) (hne : b ≠ [])
    (s : Server) (hlive : s.buf.expcnt ≠ 0 ∨ s.ptmOpen = true) :
    let s' := processPass (passRequest .expect { expflags := passExpectExact, pattern := some b }) s
    s'.conn.pattern = some b ∧
      ((servExpect host (s'.conn.pattern.getD []) s').1 = true ↔ b <:+: cstring s'.buf.expbuf) := by
  intro s'
  have hpattern : s'.conn.pattern = some b := by
    simp [s', processPass_request, passDefaults, passExpectExact, cstring_of_not_mem hnul]
  have hflags : s'.conn.expflags = passExpectExact := by
    have hword : (int32 1).toInt = 1 := by decide
    simp [s', processPass_request, passDefaults, passExpectExact, hword]
  have hbuf : s'.buf = s.buf ∧ s'.ptmOpen = s.ptmOpen := by
    simp [s', processPass_request]
  refine ⟨hpattern, ?_⟩
  have hsearch := strstr_isSome_iff (cstring s'.buf.expbuf) b hne
  have hexact : hasFlag passExpectExact passExpectExact = true := by decide
  have hicase : hasFlag passExpectExact passExpectIcase = false := by decide
  have hrun : ¬ (s'.buf.expcnt = 0 ∧ ¬ s'.ptmOpen = true) := by
    rw [hbuf.1, hbuf.2]
    tauto
  rw [← hsearch, hpattern, Option.getD_some, servExpect, if_neg hrun, hflags, if_pos hexact,
    expectExact, hicase]
  cases strstr (cstring s'.buf.expbuf) b <;> simp

/-- What is printed for a sequence of octets is quoted correctly, is read back as the
sequence and, where it can be a pattern, is the pattern searched for. -/
theorem dump_fed_back (b : Bytes) :
    (∀ d ∈ dumpText b, 0x20 ≤ d ∧ d ≤ 0x7e ∧ d ≠ octet '\'') ∧
      strunesc (dumpText b) = some b ∧
      ((0 : UInt8) ∉ b → b ≠ [] →
        ∃ opts, getargsExpect [ascii "-cstring", ascii "-exact", dumpText b] = .ok opts ∧
          ∀ host s, s.buf.expcnt ≠ 0 ∨ s.ptmOpen = true →
            let s' := processPass (passRequest .expect opts) s
            s'.conn.pattern = some b ∧
              ((servExpect host (s'.conn.pattern.getD []) s').1 = true ↔
                b <:+: cstring s'.buf.expbuf)) := by
  refine ⟨dumpText_printable b, strunesc_dumpText b, fun hnul hne => ?_⟩
  exact ⟨_, getargsExpect_dumpText b hnul hne, fun host s hlive =>
    servExpect_exact host b hnul hne s hlive⟩

/-- `it's`, a newline and an octet that is followed by a hexadecimal digit. -/
theorem dump_fed_back_line :
    dumpText (ascii "it's\n\x01a") = ascii "it\\047s\\n\\x01a" ∧
      ∃ opts, getargsExpect [ascii "-cstring", ascii "-exact", dumpText (ascii "it's\n\x01a")] =
        .ok opts := by
  obtain ⟨-, -, hpattern⟩ := dump_fed_back (ascii "it's\n\x01a")
  obtain ⟨opts, hopts, -⟩ := hpattern (by decide) (by decide)
  exact ⟨by decide, opts, hopts⟩

/-- Nothing at all is printed as an empty text, which is no pattern. -/
theorem dump_empty_refused :
    (0 : UInt8) ∉ ([] : Bytes) ∧ dumpText [] = [] ∧
      getargsExpect [ascii "-cstring", ascii "-exact", dumpText []] =
        .error ⟨"pattern cannot be empty", []⟩ := by
  refine ⟨by simp, rfl, rfl⟩

end Sexpect.Guarantees
