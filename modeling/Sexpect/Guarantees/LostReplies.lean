import Sexpect.Guarantees.SecondRequest

/-!
# Replies that are lost

Behind the failure the server is without a client (`Failed`).  When the condition
holds, every undisturbed run keeps it `Idle` until the request comes in again
(`repeats_of_kept`).  When the reply is repeated, the runs in which the next client
comes at once, or `-nowait` gets its second chance, show that the condition holds
(`kept_of_repeats`).
-/
namespace Sexpect.Guarantees
open Sexpect.Lib Sexpect.Source

/-! ## Behind the failure -/

/-- The request of `s` is over and its connection closed; output was sent before. -/
structure Failed (s s₁ : Server) : Prop where
  pc : s₁.pc = .drop
  sock : s₁.conn.sock = false
  passing : s₁.conn.passing = false
  spawn : s₁.spawn = s.spawn
  flag : s₁.sigChlded = s.sigChlded
  ptm : s₁.ptmOpen = s.ptmOpen
  raw : SameRaw s.buf s₁.buf
  newcnt : s₁.buf.newcnt = 0

theorem Ends.failed {host : Host} {s s' : Server} {t : Ttlv} (h : Ends host s t s') (hf : Flow s) :
    Failed s (stopPassing (closeSock s')) := by
  cases h with
  | matched s' hpc hmatch =>
    obtain ⟨-, -, hnew⟩ := hf.passing (.inr (.inl hpc))
    obtain ⟨pos, expout, -, rfl⟩ := servExpect_matched _ _ _ _ hmatch
    exact ⟨rfl, rfl, rfl, rfl, rfl, rfl, ⟨rfl, rfl, rfl, rfl, rfl⟩, hnew⟩
  | eof hpc =>
    obtain ⟨-, -, hnew⟩ := hf.passing (.inr (.inr hpc))
    exact ⟨rfl, rfl, rfl, rfl, rfl, rfl, ⟨rfl, rfl, rfl, rfl, rfl⟩, hnew⟩
  | exited status hpc =>
    obtain ⟨-, -, hnew⟩ := hf.passing (.inr (.inr hpc))
    exact ⟨rfl, rfl, rfl, rfl, rfl, rfl, ⟨rfl, rfl, rfl, rfl, rfl⟩, hnew⟩

theorem unsent_ends {host : Host} {sys : Sys} {s : Server} {t : Ttlv} (hf : Flow s)
    (hsent : sys.sent = false) (h : terminalReply host sys s = some t) :
    ∃ s', Ends host s t s' ∧ tick host sys s = stopPassing (closeSock s') := by
  obtain ⟨s', hends, htick⟩ := terminalReply_ends h
  refine ⟨s', hends, ?_⟩
  have hsock : s'.conn.sock = true := by
    cases hends with
    | matched s' hpc hmatch =>
      obtain ⟨pos, expout, -, rfl⟩ := servExpect_matched _ _ _ _ hmatch
      exact (hf.passing (.inr (.inl hpc))).1
    | eof hpc => exact (hf.passing (.inr (.inr hpc))).1
    | exited status hpc => exact (hf.passing (.inr (.inr hpc))).1
  rw [htick, hsent]
  simp [servMsgSend, msgOut, hsock]

/-- Only the end of the child is waited for. -/
theorem Ends.waited {host : Host} {s s' : Server} {t : Ttlv} (h : Ends host s t s')
    (ht : t.tag ≠ Tag.exited) : (stopPassing (closeSock s')).waited = s.waited := by
  cases h with
  | matched s' hpc hmatch =>
    obtain ⟨pos, expout, -, rfl⟩ := servExpect_matched _ _ _ _ hmatch
    rfl
  | eof => rfl
  | exited => exact absurd rfl ht

theorem ptmStays_iff {s s₁ : Server} (h : Failed s s₁) : PtmStays s₁ ↔ PtmStays s := by
  rw [PtmStays, PtmStays, h.ptm, h.spawn, h.flag]

theorem staysUp_iff {s s₁ : Server} (h : Failed s s₁) (hwaited : s₁.waited = s.waited) :
    StaysUp s₁ ↔ StaysUp s := by
  rw [StaysUp, StaysUp, ptmStays_iff h, h.spawn, h.flag, hwaited]

theorem Failed.idle {s s₁ : Server} (h : Failed s s₁) : Idle s₁ s₁ := by
  refine ⟨rfl, rfl, rfl, h.passing, ?_, .inr ⟨h.pc, rfl⟩, id, fun hstays => hstays.1, ?_⟩
  · intro hsock
    rw [h.sock] at hsock
    cases hsock
  · rw [h.pc]
    rfl

theorem vInt_lt (t : Ttlv) : t.vInt < 2 ^ 31 := by
  have hword : ∀ v : BitVec 32, v.toInt < 2 ^ 31 := by
    intro v
    have := BitVec.toInt_lt (x := v)
    simpa using this
  unfold Ttlv.vInt
  split
  · exact hword _
  · exact hword _
  · unfold toInt32
    have := Int.bmod_lt (x := beDecode ((t.value.memory ++ [0, 0, 0, 0]).take 4).reverse)
      (m := 2 ^ 32) (by decide)
    omega

theorem lookbackOf_lt (m : Ttlv) : lookbackOf m < 2 ^ 31 := by
  unfold lookbackOf
  split
  · exact vInt_lt _
  · decide

/-- The lookback of the second request finds its start. -/
theorem looksBackSafely_iff {stream : Bytes} {b b' : Buffers} (hraw : RawWindow stream b)
    (hsame : SameRaw b b') (n : Int) (hn : n < 2 ^ 31) :
    LooksBackSafely n (dropOldData b) ↔ (0 < n → lookbackStart n (dropOldData b') ≠ none) := by
  unfold LooksBackSafely
  rw [lookbackStart_twin hsame.dropOldData]
  constructor
  · intro h hpos hnone
    apply h hpos
    have hcast : ((n.toNat : Nat) : Int) = n := Int.toNat_of_nonneg (by omega)
    rw [← hcast] at hnone
    exact (lookbackStart_eq_none_iff hraw.dropOldData n.toNat (by omega) (by omega)).mp hnone
  · intro h hpos hlost
    apply h hpos
    have hcast : ((n.toNat : Nat) : Int) = n := Int.toNat_of_nonneg (by omega)
    rw [← hcast]
    exact (lookbackStart_eq_none_iff hraw.dropOldData n.toNat (by omega) (by omega)).mpr hlost

/-- What a match leaves in the expect buffer, trimmed. -/
theorem keptText_eq {stream : Bytes} {mark : Nat} (b : Buffers) (pos : Nat)
    (hpos : pos ≤ (cstring b.expbuf).length) (hw : ExpectWindow stream mark (keepAfter pos b)) :
    (dropOldData (keepAfter pos b)).expbuf.take (dropOldData (keepAfter pos b)).expcnt =
      keptText (cstring b.expbuf) pos := by
  obtain ⟨-, hcnt⟩ := keepAfter_text b pos hpos
  have hrest := cstring_drop b.expbuf pos hpos
  have hlen : ((cstring b.expbuf).drop pos).length = (keepAfter pos b).expcnt := by
    rw [List.length_drop, hcnt]
  have htake : (keepAfter pos b).expbuf.take (keepAfter pos b).expcnt = (cstring b.expbuf).drop pos := by
    rw [← hlen]
    simp only [keepAfter, hrest]
    simp [writeAt]
  have hexp : ∀ c : Buffers, (dropRaw c).expbuf = c.expbuf ∧ (dropRaw c).expcnt = c.expcnt := by
    intro c
    unfold dropRaw
    split <;> exact ⟨rfl, rfl⟩
  obtain ⟨hbuf, hcnt'⟩ := hexp (keepAfter pos b)
  rw [keptText, hlen, dropOldData]
  by_cases hgt : maxOldData < (keepAfter pos b).expcnt
  · obtain ⟨-, hdcnt, -, hdtake⟩ := dropExp_spec (dropRaw (keepAfter pos b))
      (by rw [hbuf]; exact hw.size) (by rw [hcnt']; exact hw.count) (by rw [hcnt']; exact hgt)
    rw [hdcnt, hdtake, hbuf, hcnt', htake]
  · have hsame : dropExp (dropRaw (keepAfter pos b)) = dropRaw (keepAfter pos b) :=
      if_neg (by rw [hcnt']; exact hgt)
    rw [hsame, hbuf, hcnt', htake, Nat.sub_eq_zero_of_le (Nat.le_of_not_lt hgt), List.drop_zero]

/-- A state behind an undisturbed run is reachable. -/
theorem undisturbed_windows (host : Host) {s₁ s₂ : Server} {mark : Nat} (hw : Windows s₁ mark)
    (h : Reaches (servStep host) Undisturbed s₁ s₂) : ∃ mark, Windows s₂ mark := by
  apply h.invariant (fun s => ∃ mark, Windows s mark) ⟨mark, hw⟩
  intro s i hs _
  obtain ⟨mark, hs⟩ := hs
  exact ⟨_, hs.step host i⟩

/-- The server waits for the next client. -/
theorem Failed.idle_of_reaches {s s₁ s₂ : Server} (hf : Failed s s₁) (hup : StaysUp s₁) {host : Host}
    (h : Reaches (servStep host) Undisturbed s₁ s₂) : Idle s₁ s₂ := by
  apply h.invariant (fun s => Idle s₁ s) hf.idle
  intro s i hi hok
  exact hi.step host i hup hf.newcnt hok

/-- Asked again, it is ready to answer if the lookback is safe. -/
theorem Failed.ready {host : Host} {s s₁ s₂ : Server} {m : Ttlv} {mark mark₁ : Nat} (hf : Failed s s₁)
    (hw : Windows s mark) (hw₁ : Windows s₁ mark₁) (hoff : s₁.buf.expoffset = s₁.buf.ntotal)
    (hreach : Reaches (servStep host) Undisturbed s₁ s₂) {sys : Sys}
    (hasked : Asked s m s₁ (tick host sys s₂))
    (hsafe : LooksBackSafely (lookbackOf m) (dropOldData s.buf)) :
    Ready s m s₁ (tick host sys s₂) := by
  obtain ⟨htotal, -, hexp, -, hcnt, -⟩ := dropOldData_counts s₁.buf
  obtain ⟨mark₂, hw₂⟩ := undisturbed_windows host hw₁ hreach
  refine ⟨hasked, ?_, ?_, ⟨_, hw₂.step host (.tick sys)⟩, ?_⟩
  · rw [hasked.buf, hcnt, hf.newcnt]
  · rw [hasked.buf]
    exact (looksBackSafely_iff hw.raw hf.raw (lookbackOf m) (lookbackOf_lt m)).mp hsafe
  · rw [hasked.buf, htotal, hexp, hoff]

/-- The condition is enough. -/
theorem repeats_of_kept {host : Host} {s s' : Server} {m t : Ttlv} {mark mark₁ : Nat}
    (hw : Windows s mark) (hends : Ends host s t s')
    (hw₁ : Windows (stopPassing (closeSock s')) mark₁) (hm : AsksAgain s m)
    (hkept : ReplyKept host s m t) : Repeats host (stopPassing (closeSock s')) m t := by
  have hfailed := hends.failed hw.flow
  have hup : StaysUp (stopPassing (closeSock s')) :=
    (staysUp_iff hfailed (hends.waited hkept.reply)).mpr hkept.up
  constructor
  · intro s₂ hrun
    have hplace := (hfailed.idle_of_reaches hup hrun).place
    refine ⟨?_, ?_, ?_⟩ <;> (intro hpc; rw [hpc] at hplace; cases hplace)
  · intro s₂ sys hrun hrec
    have hi := hfailed.idle_of_reaches hup hrun
    obtain ⟨hasked, hptm⟩ := hi.asked host sys hm hrec
    cases hends with
    | matched s' hpc hmatch =>
      obtain ⟨-, whole, groups, hfound, rfl⟩ := (servExpect_eq_true_iff host _ s s').mp hmatch
      obtain ⟨hpattern, -, hoff⟩ := hw.flow.ready hpc
      have hready := hfailed.ready hw hw₁ hoff hrun hasked hkept.lookback
      obtain ⟨whole₀, groups₀, whole', groups', hfirst, hagain, hsame, hempty⟩ := hkept.matched rfl
      rw [hfound] at hfirst
      cases hfirst
      have htext : (tick host sys s₂).buf.expbuf.take (tick host sys s₂).buf.expcnt =
          keptText (cstring s.buf.expbuf) whole.2 := by
        rw [hasked.buf]
        exact keptText_eq s.buf whole.2 (found_offsets hfound).bound hw₁.exp
      rw [hready.answers_matched_iff host hpattern, htext]
      refine ⟨whole', groups', hagain, hsame, fun hnil => ?_⟩
      rw [hptm]
      exact hi.stays ((ptmStays_iff hfailed).mpr (hempty hnil))
    | eof hpc hclosed hflag =>
      have hready := hfailed.ready hw hw₁ rfl hrun hasked hkept.lookback
      have hcnt : (tick host sys s₂).buf.expcnt = 0 := by
        obtain ⟨-, -, -, -, -, hexp⟩ := dropOldData_counts (resetExp s.buf.ntotal s.buf)
        rw [hasked.buf]
        exact hexp.trans (Nat.zero_min _)
      have hstill : (tick host sys s₂).ptmOpen = false := by
        rw [hptm, ← Bool.not_eq_true]
        intro hopen
        have hwas := hi.closed hopen
        rw [hfailed.ptm, hclosed] at hwas
        cases hwas
      exact hready.answers_eof host hcnt hstill hflag _
    | exited => exact absurd rfl hkept.reply

/-! ## Runs to the next client -/

/-- The answers when `select` reports `fds` and no message comes. -/
def reporting (fds : ReadFds) : Sys := { select := .ready fds }

theorem undisturbed_reporting (fds : ReadFds) (hquiet : fds.ptm = false) (s : Server) :
    Undisturbed s (.tick (reporting fds)) := by
  refine ⟨rfl, rfl, rfl, hquiet, ?_, ?_⟩
  · intro herror
    cases herror
  · intro m hrec
    obtain ⟨sys, -, heq, -, -, -, hmsg⟩ := received_eq_some hrec
    cases heq
    cases hmsg

theorem reaches_reporting (host : Host) (n : Nat) (fds : ReadFds) (hquiet : fds.ptm = false)
    (s : Server) :
    Reaches (servStep host) Undisturbed s (runs (servStep host) (ticks n (reporting fds)) s) := by
  induction n generalizing s with
  | zero => exact .start
  | succ n ih =>
    exact (Reaches.start.next _ (undisturbed_reporting fds hquiet s)).trans (ih _)

/-- The head of the loop: `-cloexit` closes the pty the second time. -/
theorem loopHead_going {s : Server} (hwaited : s.waited = false) :
    ∃ ptmOpen count, loopHead s =
        { s with ptmOpen := ptmOpen, cloexitCount := count, pc := .nowait } ∧
      (ptmOpen = true → s.ptmOpen = true) ∧ (PtmStays s → ptmOpen = true) ∧
      (ptmOpen = true → ¬ PtmStays s → s.cloexitCount = 0 ∧ 1 ≤ count) := by
  rw [loopHead, if_neg (by simp [hwaited])]
  by_cases hclo : s.spawn.cloexit = true ∧ s.sigChlded = true ∧ s.ptmOpen = true
  · rw [if_pos hclo]
    refine ⟨_, _, rfl, fun _ => hclo.2.2, ?_, ?_⟩
    · intro hstays
      exact absurd ⟨hclo.1, hclo.2.1⟩ hstays.2
    · intro hopen _
      have hfew : ¬ s.cloexitCount + 1 > 1 := by simpa using hopen
      omega
  · rw [if_neg hclo]
    refine ⟨s.ptmOpen, s.cloexitCount, rfl, id, fun hstays => hstays.1, ?_⟩
    intro hopen hleaves
    exact absurd ⟨hopen, fun hc => hclo ⟨hc.1, hc.2, hopen⟩⟩ hleaves

/-- An iteration without a client, or with one that connects. -/
theorem runs_alone (host : Host) (fds : ReadFds) (s : Server) (hpc : s.pc = .nowait)
    (hquiet : fds.ptm = false) (hsock : s.conn.sock = false) (hpass : s.conn.passing = false)
    (hstay : ¬ (s.spawn.autowait = true ∧ s.sigChlded = true ∧ s.ptmOpen = false))
    (hroom : s.buf.rawnew + s.buf.newcnt ≠ sizeRawBuf) :
    runs (servStep host) (ticks 9 (reporting fds)) s =
      { s with pc := .drop, conn := if fds.listen then { sock := true } else s.conn } := by
  have hnowait : loopNowait s = { s with pc := .zombie } := if_neg (by simpa [hsock] using hstay)
  have hone : runs (servStep host) (ticks 1 (reporting fds)) s = { s with pc := .zombie } := by
    simp [ticks, runs, servStep, tick, hpc, hnowait]
  rw [show 9 = 1 + 8 from rfl, ticks_add, runs_append, hone]
  cases hlisten : fds.listen <;>
    simp [ticks, runs, servStep, tick, loopZombie, loopLimits, reporting, loopSelect, loopAccept,
      loopReadPtm, loopNonblock, loopRecv, servPassOutput, hquiet, hsock, hpass, hroom, hlisten]

theorem runs_readable (host : Host) (s : Server) (hpc : s.pc = .nowait) (hsock : s.conn.sock = true) :
    runs (servStep host) (ticks 7 (reporting { sock := true })) s =
      { s with pc := .recv { sock := true } } := by
  simp [ticks, runs, servStep, tick, hpc, loopNowait, loopZombie, loopLimits, reporting, loopSelect, loopAccept,
    loopReadPtm, loopNonblock, hsock]

/-- From the end of an iteration to the head of the next. -/
structure Visit (s s' : Server) : Prop where
  pc : s'.pc = .nowait
  conn : s'.conn = s.conn
  spawn : s'.spawn = s.spawn
  flag : s'.sigChlded = s.sigChlded
  waited : s'.waited = s.waited
  buf : s'.buf = dropOldData s.buf
  was : s'.ptmOpen = true → s.ptmOpen = true
  stays : PtmStays s → s'.ptmOpen = true
  counted : s'.ptmOpen = true → ¬ PtmStays s → s.cloexitCount = 0 ∧ 1 ≤ s'.cloexitCount

theorem reaches_visit (host : Host) (s : Server) (hpc : s.pc = .drop) (hwaited : s.waited = false) :
    ∃ s', Reaches (servStep host) Undisturbed s s' ∧ Visit s s' := by
  have hreach := reaches_reporting host 2 {} rfl s
  have htwo : runs (servStep host) (ticks 2 (reporting {})) s =
      loopHead { s with buf := dropOldData s.buf, pc := .head } := by
    simp [ticks, runs, servStep, tick, hpc]
  rw [htwo] at hreach
  refine ⟨_, hreach, ?_⟩
  obtain ⟨ptmOpen, count, hhead, hwas, hstays, hcounted⟩ :=
    loopHead_going (s := { s with buf := dropOldData s.buf, pc := .head }) hwaited
  rw [hhead]
  exact ⟨rfl, rfl, rfl, rfl, rfl, rfl, hwas, hstays, hcounted⟩

/-- Undisturbed, the server leaves at the first chance of `-nowait`, or comes to the
second: there `-cloexit` has closed the pty. -/
theorem second_visit (host : Host) {s s₁ : Server} (hf : Failed s s₁) (hwaited : s₁.waited = false)
    (fds : ReadFds) (hquiet : fds.ptm = false) :
    (∃ s₂, Reaches (servStep host) Undisturbed s₁ s₂ ∧ s₂.pc = .exited) ∨
      ∃ s₂, Reaches (servStep host) Undisturbed s₁ s₂ ∧ s₂.pc = .nowait ∧
        s₂.conn.sock = fds.listen ∧ s₂.spawn = s₁.spawn ∧ s₂.sigChlded = s₁.sigChlded ∧
        (s₂.ptmOpen = true ↔ PtmStays s₁) := by
  obtain ⟨a, hreach, hvisit⟩ := reaches_visit host s₁ hf.pc hwaited
  have hsock : a.conn.sock = false := by rw [hvisit.conn, hf.sock]
  by_cases hleave : a.spawn.autowait = true ∧ a.sigChlded = true ∧ a.ptmOpen = false
  · left
    refine ⟨_, hreach.trans (reaches_reporting host 1 fds hquiet a), ?_⟩
    simp [ticks, runs, servStep, tick, hvisit.pc, loopNowait, hleave, hsock]
  right
  have hroom : a.buf.rawnew + a.buf.newcnt ≠ sizeRawBuf := by
    obtain ⟨-, -, -, hraw, hnew, -⟩ := dropOldData_counts s₁.buf
    rw [hvisit.buf, hraw, hnew, hf.newcnt, sizeRawBuf_eq, maxOldData_eq]
    omega
  have hround := runs_alone host fds a hvisit.pc hquiet hsock (by rw [hvisit.conn, hf.passing]) hleave
    hroom
  have hreach' := hreach.trans (reaches_reporting host 9 fds hquiet a)
  rw [hround] at hreach'
  obtain ⟨b, hreach'', hvisit'⟩ := reaches_visit host
    { a with pc := .drop, conn := if fds.listen then { sock := true } else a.conn } rfl
    (by rw [← hwaited, ← hvisit.waited])
  refine ⟨b, hreach'.trans hreach'', hvisit'.pc, ?_, ?_, ?_, ?_⟩
  · rw [hvisit'.conn]
    simp only
    split
    · rename_i hlisten
      rw [hlisten]
    · rename_i hlisten
      rw [hsock]
      simpa using hlisten
  · exact hvisit'.spawn.trans hvisit.spawn
  · exact hvisit'.flag.trans hvisit.flag
  · constructor
    · intro hopen
      by_contra hleaves
      have hopen' := hvisit'.was hopen
      have hcount := (hvisit.counted hopen' hleaves).2
      have hzero := (hvisit'.counted hopen fun hst => hleaves ⟨hvisit.was hopen', by
        rw [← hvisit.spawn, ← hvisit.flag]
        exact hst.2⟩).1
      simp only at hzero
      omega
    · intro hst
      apply hvisit'.stays
      refine ⟨hvisit.stays hst, ?_⟩
      simp only [hvisit.spawn, hvisit.flag]
      exact hst.2

/-- Behind a child that was waited for there is no server. -/
theorem waited_of_survives {host : Host} {s s₁ : Server} (hf : Failed s s₁)
    (halive : Survives host s₁) : s₁.waited = false := by
  by_contra hwaited
  rw [Bool.not_eq_false] at hwaited
  apply (halive _ (reaches_reporting host 2 {} rfl s₁)).1
  simp [ticks, runs, servStep, tick, hf.pc, loopHead, hwaited, hf.sock]

theorem staysUp_of_survives {host : Host} {s s₁ : Server} (hf : Failed s s₁)
    (halive : Survives host s₁) : StaysUp s₁ := by
  have hwaited := waited_of_survives hf halive
  refine ⟨hwaited, fun hauto hdead => ?_⟩
  by_contra hleaves
  rcases second_visit host hf hwaited {} rfl with
    ⟨s₂, hreach, hgone⟩ | ⟨s₂, hreach, hpc, hsock, hspawn, hflag, hptm⟩
  · exact (halive s₂ hreach).1 hgone
  · have hclosed : ¬ s₂.ptmOpen = true := fun hopen => hleaves (hptm.mp hopen)
    have hauto' : s₂.spawn.autowait = true := by rw [hspawn, hauto]
    have hdead' : s₂.sigChlded = true := by rw [hflag, hdead]
    apply (halive _ (hreach.trans (reaches_reporting host 1 {} rfl s₂))).1
    simp [ticks, runs, servStep, tick, hpc, loopNowait, hauto', hdead', hclosed, hsock]

/-- The next client comes to ask, `-cloexit` having done what it does. -/
theorem reaches_request {host : Host} {s s₁ : Server} (hf : Failed s s₁)
    (halive : Survives host s₁) (m : Ttlv) :
    ∃ s₂, Reaches (servStep host) Undisturbed s₁ s₂ ∧ received s₂ (.tick (asking m)) = some m ∧
      (s₂.ptmOpen = true → PtmStays s₁) := by
  rcases second_visit host hf (waited_of_survives hf halive) { listen := true } rfl with
    ⟨s₂, hreach, hgone⟩ | ⟨s₂, hreach, hpc, hsock, -, -, hptm⟩
  · exact absurd hgone (halive s₂ hreach).1
  · have hready := runs_readable host s₂ hpc hsock
    have hreach' := hreach.trans (reaches_reporting host 7 { sock := true } rfl s₂)
    rw [hready] at hreach'
    refine ⟨_, hreach', ?_, hptm.mp⟩
    simp only [received, hsock, and_self, if_true, asking]

/-- The condition is necessary. -/
theorem kept_of_repeats {host : Host} {s s' : Server} {m t : Ttlv} {mark mark₁ : Nat}
    (hw : Windows s mark) (hends : Ends host s t s')
    (hw₁ : Windows (stopPassing (closeSock s')) mark₁) (hm : AsksAgain s m)
    (hrep : Repeats host (stopPassing (closeSock s')) m t) : ReplyKept host s m t := by
  have hfailed := hends.failed hw.flow
  have hup := staysUp_of_survives hfailed hrep.alive
  have hreply : t.tag ≠ Tag.exited := by
    cases hends with
    | matched => decide
    | eof => decide
    | exited => cases hup.1
  obtain ⟨s₂, hreach, hrec, hptm⟩ := reaches_request hfailed hrep.alive m
  have hans := hrep.again s₂ (asking m) hreach hrec
  have hi := hfailed.idle_of_reaches hup hreach
  obtain ⟨hasked, hopen⟩ := hi.asked host (asking m) hm hrec
  have hsafe : LooksBackSafely (lookbackOf m) (dropOldData s.buf) := by
    rw [looksBackSafely_iff hw.raw hfailed.raw (lookbackOf m) (lookbackOf_lt m), ← hasked.buf]
    intro hpos hlost
    obtain ⟨n, outs, -, -, hlog, -⟩ := hans (fun _ => {}) (fun _ => rfl)
    rw [hasked.crashes host hpos hlost, List.append_assoc, List.self_eq_append_right] at hlog
    simp at hlog
  refine ⟨hreply, (staysUp_iff hfailed (hends.waited hreply)).mp hup, hsafe, ?_⟩
  intro htag
  cases hends with
  | eof => cases htag
  | exited => cases hup.1
  | matched s' hpc hmatch =>
    obtain ⟨-, whole, groups, hfound, rfl⟩ := (servExpect_eq_true_iff host _ s s').mp hmatch
    obtain ⟨hpattern, -, hoff⟩ := hw.flow.ready hpc
    have hready := hfailed.ready hw hw₁ hoff hreach hasked hsafe
    have htext : (tick host (asking m) s₂).buf.expbuf.take (tick host (asking m) s₂).buf.expcnt =
        keptText (cstring s.buf.expbuf) whole.2 := by
      rw [hasked.buf]
      exact keptText_eq s.buf whole.2 (found_offsets hfound).bound hw₁.exp
    rw [hready.answers_matched_iff host hpattern, htext] at hans
    obtain ⟨whole', groups', hagain, hsame, hempty⟩ := hans
    refine ⟨whole, groups, whole', groups', hfound, hagain, hsame, fun hnil => ?_⟩
    apply (ptmStays_iff hfailed).mp
    apply hptm
    rw [← hopen]
    exact hempty hnil

/-- A terminal reply that cannot be sent.  In every reachable state in which a stretch
of `serv_pass` comes to its terminal reply and fails to send it, for every request
that asks the same again: the server stays and the next client is given the same
reply, in every undisturbed run, exactly under the condition. -/
theorem unsent_reply_iff (host : Host) (s₀ s : Server) (h₀ : Initial s₀)
    (hrun : Reaches (servStep host) (fun _ _ => True) s₀ s) (sys : Sys) (hsent : sys.sent = false)
    (t : Ttlv) (hreply : terminalReply host sys s = some t) (m : Ttlv) (hm : AsksAgain s m) :
    Repeats host (tick host sys s) m t ↔ ReplyKept host s m t := by
  obtain ⟨mark, hw⟩ := reaches_windows host h₀ hrun
  obtain ⟨s', hends, htick⟩ := unsent_ends hw.flow hsent hreply
  have hw₁ : Windows (tick host sys s) _ := hw.step host (.tick sys)
  rw [htick] at hw₁ ⊢
  constructor
  · exact kept_of_repeats hw hends hw₁ hm
  · exact repeats_of_kept hw hends hw₁ hm

/-- A client waits for the end of the output while the pty is closed. -/
def eofInputs : List Input :=
  ticks 3 {} ++ ticks 11 connecting ++
    ticks 11 { select := .ready { sock := true, ptm := true }, msg := some eofRequest, ptm := [.eof] }

/-- The end of the output is told to the next client. -/
theorem unsent_eof_repeated :
    Repeats plainHost
      (tick plainHost { sent := false } (runs (servStep plainHost) eofInputs freshServer))
      eofRequest (ttlvNewStruct Tag.eof) := by
  have hrun : Reaches (servStep plainHost) (fun _ _ => True) freshServer
      (runs (servStep plainHost) eofInputs freshServer) :=
    Reaches.start.runs _ (admitted_true _ _)
  have hreply : terminalReply plainHost { sent := false }
      (runs (servStep plainHost) eofInputs freshServer) = some (ttlvNewStruct Tag.eof) := by
    decide +kernel
  have hm : AsksAgain (runs (servStep plainHost) eofInputs freshServer) eofRequest := by
    constructor <;> decide +kernel
  have hup : StaysUp (runs (servStep plainHost) eofInputs freshServer) := by
    have hauto : (runs (servStep plainHost) eofInputs freshServer).spawn.autowait = false := by
      decide +kernel
    refine ⟨by decide +kernel, fun hnowait => ?_⟩
    rw [hauto] at hnowait
    cases hnowait
  apply (unsent_reply_iff plainHost freshServer _ freshServer_initial hrun { sent := false } rfl _
    hreply eofRequest hm).mpr
  refine ⟨by decide, hup, ?_, fun htag => by cases htag⟩
  intro hpos
  exact absurd hpos (by decide)

/-- The request of `promptInputs`. -/
def promptRequest : Ttlv :=
  passRequest .expect { expflags := passExpectExact, pattern := some (ascii "gin") }

/-- A match that is not heard of is lost. -/
theorem unsent_match_lost :
    terminalReply plainHost { sent := false } (runs (servStep plainHost) promptInputs freshServer) =
        some (ttlvNewBool Tag.matched 1) ∧
      AsksAgain (runs (servStep plainHost) promptInputs freshServer) promptRequest ∧
      ¬ Repeats plainHost
        (tick plainHost { sent := false } (runs (servStep plainHost) promptInputs freshServer))
        promptRequest (ttlvNewBool Tag.matched 1) := by
  have hrun : Reaches (servStep plainHost) (fun _ _ => True) freshServer
      (runs (servStep plainHost) promptInputs freshServer) :=
    Reaches.start.runs _ (admitted_true _ _)
  have hreply : terminalReply plainHost { sent := false }
      (runs (servStep plainHost) promptInputs freshServer) = some (ttlvNewBool Tag.matched 1) := by
    decide +kernel
  have hm : AsksAgain (runs (servStep plainHost) promptInputs freshServer) promptRequest := by
    constructor <;> decide +kernel
  have hconn : (runs (servStep plainHost) promptInputs freshServer).conn.expflags = 1 ∧
      (runs (servStep plainHost) promptInputs freshServer).conn.pattern = some (ascii "gin") ∧
      cstring (runs (servStep plainHost) promptInputs freshServer).buf.expbuf = ascii "login: " := by
    refine ⟨?_, ?_, ?_⟩ <;> decide +kernel
  refine ⟨hreply, hm, fun hrep => ?_⟩
  obtain ⟨mark, hw⟩ := reaches_windows plainHost freshServer_initial hrun
  obtain ⟨s', hends, htick⟩ := unsent_ends hw.flow rfl hreply
  have hw₁ : Windows (tick plainHost { sent := false }
      (runs (servStep plainHost) promptInputs freshServer)) _ :=
    hw.step plainHost (.tick { sent := false })
  rw [htick] at hw₁ hrep
  obtain ⟨whole, groups, whole', groups', hfound, hagain, -, -⟩ :=
    (kept_of_repeats hw hends hw₁ hm hrep).matched rfl
  rw [hconn.1, hconn.2.1, hconn.2.2] at hfound hagain
  have hwhole : whole.2 = 5 := by
    have hfirst : found plainHost.regex 1 (ascii "gin") (ascii "login: ") =
        some ((2, 5), List.replicate 9 none) := by decide
    rw [Option.getD_some, hfirst] at hfound
    cases hfound
    rfl
  have hleft : keptText (ascii "login: ") 5 = ascii ": " := by
    rw [keptText, maxOldData_eq]
    decide
  have hnone : found plainHost.regex 1 (ascii "gin") (ascii ": ") = none := by decide
  rw [hwhole, hleft, Option.getD_some, hnone] at hagain
  cases hagain

end Sexpect.Guarantees
