import Esp32S31.BleHa.Frames
import Mathlib.Logic.Basic
import Mathlib.Tactic.ByContra

/-!
# L2CAP frames from ACL packets

`expected` is the reassembly that L2CAP asks for: a frame is made of a start fragment and the
continuations behind it, and a continuation that belongs to no frame is ignored. `handle_acl` keeps
only the bytes that it has, so with no frame under way a continuation is where the next frame
begins.

**`reassembly_iff`**: the frames of a sequence of packets are the expected ones exactly if stray
continuations never make up a frame of their own, and a frame that was split comes out as it was.
-/

namespace Esp32S31.BleHa

open Esp32S31.Lib Prog

/-! ## Fragments -/

/-- What an ACL packet carries. -/
structure Fragment where
  /-- a start, or a continuation -/
  start : Bool
  data : List UInt8
  deriving DecidableEq

/-- The fragment in an ACL packet that has all of its data. -/
def fragment (p : List UInt8) : Option Fragment :=
  if p.length < 5 ∨ get16 p 3 + 5 > p.length then none
  else some ⟨(byte p 2).toNat / 16 % 4 ≠ 1, (p.drop 5).take (get16 p 3)⟩

/-- The bytes have all that the L2CAP header asks for. -/
def Whole (bs : List UInt8) : Prop := 4 ≤ bs.length ∧ get16 bs 0 + 4 ≤ bs.length

instance (bs : List UInt8) : Decidable (Whole bs) := inferInstanceAs (Decidable (_ ∧ _))

/-- The channel and the payload. -/
def frameIn (bs : List UInt8) : Nat × List UInt8 := (get16 bs 2, (bs.drop 4).take (get16 bs 0))

/-! ## The frames that are expected, and those that come -/

/-- The bytes of the frame that a fragment belongs to, if there is one. -/
def Fragment.joins (f : Fragment) (cur : Option (List UInt8)) : Option (List UInt8) :=
  if f.start then some f.data else cur.map (· ++ f.data)

/-- The frames of the fragments while the frame `cur` is under way. -/
def expected : Option (List UInt8) → List Fragment → List (Nat × List UInt8)
  | _, [] => []
  | cur, f :: fs =>
    match f.joins cur with
    | none => expected none fs
    | some bs =>
      if 256 < bs.length then expected none fs
      else if Whole bs then frameIn bs :: expected none fs
      else expected (some bs) fs

/-- The bytes of stray continuations that the buffer holds. -/
def strayed (stray : List UInt8) (f : Fragment) : List UInt8 :=
  if stray.length + f.data.length ≤ 256 then stray ++ f.data else []

/-- **No stray frame**: the continuations that belong to no frame, joined while they fit the buffer,
never have all that their first bytes ask for. -/
def NoStray : Option (List UInt8) → List UInt8 → List Fragment → Prop
  | _, _, [] => True
  | cur, stray, f :: fs =>
    match f.joins cur with
    | none => ¬ Whole (strayed stray f) ∧ NoStray none (strayed stray f) fs
    | some bs => if 256 < bs.length ∨ Whole bs then NoStray none [] fs else NoStray (some bs) [] fs

/-- The frames of `handle_acl` while its buffer holds `acc`. -/
def delivered : List UInt8 → List Fragment → List (Nat × List UInt8)
  | _, [] => []
  | acc, f :: fs =>
    let bs := if f.start then f.data else acc ++ f.data
    if 256 < bs.length then delivered [] fs
    else if Whole bs then frameIn bs :: delivered [] fs
    else delivered bs fs

theorem not_whole_nil : ¬ Whole [] := fun h => absurd h.1 (by decide)

/-- One stray continuation. -/
theorem delivered_stray {stray : List UInt8} {f : Fragment} (hf : f.start = false)
    (fs : List Fragment) : delivered stray (f :: fs) =
      if Whole (strayed stray f) then frameIn (strayed stray f) :: delivered [] fs
      else delivered (strayed stray f) fs := by
  rw [delivered, hf, if_neg Bool.false_ne_true, List.length_append, strayed]
  by_cases hl : stray.length + f.data.length ≤ 256
  · rw [if_neg (Nat.not_lt.mpr hl), if_pos hl]
  · rw [if_pos (Nat.not_le.mp hl), if_neg hl, if_neg not_whole_nil]

/-- **The code delivers what is expected, and the stray frames besides.** -/
theorem delivered_expected : ∀ (fs : List Fragment) (cur : Option (List UInt8))
    (stray : List UInt8),
    (expected cur fs).length ≤ (delivered (cur.getD stray) fs).length ∧
      (delivered (cur.getD stray) fs = expected cur fs ↔ NoStray cur stray fs)
  | [], _, _ => ⟨Nat.le_refl 0, ⟨fun _ => trivial, fun _ => rfl⟩⟩
  | f :: fs, cur, stray => by
    have hframe (bs : List UInt8) (hj : f.joins cur = some bs)
        (hbs : (if f.start then f.data else cur.getD stray ++ f.data) = bs) :
        (expected cur (f :: fs)).length ≤ (delivered (cur.getD stray) (f :: fs)).length ∧
          (delivered (cur.getD stray) (f :: fs) = expected cur (f :: fs) ↔
            NoStray cur stray (f :: fs)) := by
      simp only [expected, delivered, NoStray, hj, hbs]
      by_cases hl : 256 < bs.length
      · rw [if_pos hl, if_pos hl, if_pos (.inl hl)]
        exact delivered_expected fs none []
      rw [if_neg hl, if_neg hl]
      by_cases hw : Whole bs
      · rw [if_pos hw, if_pos hw, if_pos (.inr hw)]
        obtain ⟨hle, hiff⟩ := delivered_expected fs none []
        exact ⟨Nat.succ_le_succ hle, (List.cons_inj_right _).trans hiff⟩
      · rw [if_neg hw, if_neg hw, if_neg (not_or.mpr ⟨hl, hw⟩)]
        exact delivered_expected fs (some bs) []
    by_cases hs : f.start = true
    · exact hframe f.data (if_pos hs) (if_pos hs)
    cases cur with
    | some bs => exact hframe (bs ++ f.data) (if_neg hs) (if_neg hs)
    | none =>
      have hj : f.joins none = none := if_neg hs
      rw [Option.getD_none, delivered_stray (Bool.eq_false_iff.mpr hs)]
      simp only [expected, NoStray, hj]
      by_cases hw : Whole (strayed stray f)
      · obtain ⟨hle, -⟩ := delivered_expected fs none []
        rw [if_pos hw]
        refine ⟨Nat.le_succ_of_le hle, ⟨fun he => ?_, fun h => absurd hw h.1⟩⟩
        -- the stray frame makes the list longer than it should be
        have := congrArg List.length he
        rw [List.length_cons] at this
        rw [Option.getD_none] at hle
        omega
      · obtain ⟨hle, hiff⟩ := delivered_expected fs none (strayed stray f)
        rw [if_neg hw]
        exact ⟨hle, hiff.trans ⟨fun h => ⟨hw, h⟩, fun h => h.2⟩⟩

/-! ## The program -/

/-- The frames that `l2cap_frame` was given, newest first. -/
def frames (w : World Call Daemon) : List (Nat × List UInt8) :=
  w.calls.filterMap fun k => match k.1 with
    | .frame cid p => some (cid, p)
    | _ => none

theorem ignoresImprov_frames : IgnoresImprov fun w => (w.st.l2, frames w) where
  asked _ _ := rfl
  acl _ _ _ := rfl
  write _ _ _ _ := rfl
  att w k s hk := by cases k <;> first | rfl | cases hk
  request _ _ _ _ := rfl
  gatt _ _ := rfl
  dirty _ _ := rfl
  joinId _ _ := rfl
  joinEnd _ _ := rfl
  identifyEnd _ _ := rfl
  improv w k s hk := by cases k <;> first | rfl | cases hk

/-- A frame is recorded, and its handling leaves the buffer alone. -/
theorem l2capFrame_frames (cid : Nat) (p : List UInt8) (l2 : Buffer 256)
    (fs : List (Nat × List UInt8)) :
    Meets (fun w => (w.st.l2, frames w) = (l2, fs)) (l2capFrame cid p)
      fun _ w => (w.st.l2, frames w) = (l2, (cid, p) :: fs) := by
  have hi := ignoresImprov_frames
  have hsend (cid : Nat) (data : List UInt8) := aclSend_same hi.toIgnoresAcl cid data
  unfold l2capFrame
  refine Meets.bind (R := fun _ w => (w.st.l2, frames w) = (l2, (cid, p) :: fs))
    (Meets.call fun w hw => ?_)
    fun _ => Same.meets ?_ (· = (l2, (cid, p) :: fs))
  · obtain ⟨hl, hf⟩ := Prod.mk.inj hw
    exact Prod.mk.injEq .. |>.mpr ⟨hl, congrArg ((cid, p) :: ·) hf⟩
  refine Same.bind Same.get fun s => Same.ite ?_ (Same.ite (hsend _ _) (Same.when (hsend _ _)))
  refine Same.bind (Same.call fun w s => hi.att w _ s rfl) fun _ => ?_
  refine Same.bind (Same.modify fun w => hi.gatt w _) fun _ => Same.bind ?_ fun _ =>
    Same.when (hsend _ _)
  cases (gattHandle s.gatt p s.rspMax).2.2 with
  | none => exact Same.pure _
  | some data =>
    exact rpcWrite_same hi (fun w k s hk => by cases k <;> first | rfl | cases hk)
      (fun _ _ => rfl) data

/-- What a fragment makes of the bytes in the buffer: those that are left, and a frame. -/
def received (acc : List UInt8) (f : Fragment) : List UInt8 × Option (Nat × List UInt8) :=
  let bs := if f.start then f.data else acc ++ f.data
  if 256 < bs.length then ([], none) else if Whole bs then ([], some (frameIn bs)) else (bs, none)

theorem delivered_cons (acc : List UInt8) (f : Fragment) (fs : List Fragment) :
    delivered acc (f :: fs) = (received acc f).2.toList ++ delivered (received acc f).1 fs := by
  rw [delivered, received]
  generalize (if f.start then f.data else acc ++ f.data) = bs
  by_cases hl : 256 < bs.length
  · rw [if_pos hl, if_pos hl]
    rfl
  rw [if_neg hl, if_neg hl]
  by_cases hw : Whole bs
  · rw [if_pos hw, if_pos hw]
    rfl
  · rw [if_neg hw, if_neg hw]
    rfl

theorem reassemble_cut {p : List UInt8} (h : fragment p = none) (l2 : Buffer 256) :
    reassemble l2 p = (l2, none) := by
  unfold fragment at h
  split at h
  · rename_i hc
    exact if_pos hc
  · cases h

/-- The buffer and the frame that `handle_acl` finds in it. -/
theorem reassemble_fragment {p : List UInt8} {f : Fragment} (h : fragment p = some f)
    (l2 : Buffer 256) : (reassemble l2 p).2 = (received l2.content f).2 ∧
      ((reassemble l2 p).2 = none → (reassemble l2 p).1.content = (received l2.content f).1) ∧
      ((reassemble l2 p).2 ≠ none → (received l2.content f).1 = []) := by
  unfold fragment at h
  obtain ⟨hc, rfl⟩ : ¬ (p.length < 5 ∨ get16 p 3 + 5 > p.length) ∧
      (⟨(byte p 2).toNat / 16 % 4 ≠ 1, (p.drop 5).take (get16 p 3)⟩ : Fragment) = f := by
    split at h
    · cases h
    · exact ⟨‹_›, Option.some.inj h⟩
  -- the buffer that the fragment goes to
  obtain ⟨b, hb, hcontent⟩ : ∃ b : Buffer 256,
      (if (byte p 2).toNat / 16 % 4 ≠ 1 then l2.reset else l2) = b ∧
        (if decide ((byte p 2).toNat / 16 % 4 ≠ 1) then (p.drop 5).take (get16 p 3)
          else l2.content ++ (p.drop 5).take (get16 p 3)) = b.content ++
            (p.drop 5).take (get16 p 3) := by
    refine ⟨_, rfl, ?_⟩
    by_cases hs : (byte p 2).toNat / 16 % 4 ≠ 1
    · rw [if_pos hs, if_pos (decide_eq_true hs)]
      rfl
    · rw [if_neg hs, if_neg (Bool.eq_false_iff.mp (decide_eq_false hs))]
  have hr : reassemble l2 p =
      if hl : b.len + ((p.drop 5).take (get16 p 3)).length ≤ 256 then
        let l2 := b.append ((p.drop 5).take (get16 p 3)) hl
        let need := get16 l2.content 0 + 4
        if l2.len < 4 ∨ l2.len < need then (l2, none)
        else (l2, some (get16 l2.content 2, (l2.content.drop 4).take (need - 4)))
      else (b.reset, none) := by
    subst hb
    exact if_neg hc
  unfold received
  simp only [] at hcontent ⊢
  rw [hcontent, hr]
  generalize (p.drop 5).take (get16 p 3) = d
  have hlen : (b.content ++ d).length = b.len + d.length := by
    rw [List.length_append, Buffer.length_content]
  by_cases hl : b.len + d.length ≤ 256
  · rw [dif_pos hl, if_neg (Nat.not_lt.mpr (hlen ▸ hl))]
    simp only [Buffer.content_append, Buffer.len_append, Nat.add_sub_cancel]
    by_cases hw : Whole (b.content ++ d)
    · obtain ⟨h4, hn⟩ := hw
      rw [hlen] at h4 hn
      rw [if_neg (by omega), if_pos ⟨by omega, by omega⟩]
      exact ⟨rfl, (by rintro ⟨⟩), fun _ => rfl⟩
    · have : b.len + d.length < 4 ∨ b.len + d.length < get16 (b.content ++ d) 0 + 4 := by
        by_contra hn
        exact hw ⟨by omega, by omega⟩
      rw [if_pos this, if_neg hw]
      exact ⟨rfl, fun _ => Buffer.content_append b d hl, fun h => absurd rfl h⟩
  · rw [dif_neg hl, if_pos (by omega)]
    exact ⟨rfl, fun _ => rfl, fun h => absurd rfl h⟩

/-- The bytes in the buffer, and the frames so far. -/
def Buffered (acc : List UInt8) (fs : List (Nat × List UInt8)) (w : World Call Daemon) : Prop :=
  w.st.l2.content = acc ∧ frames w = fs

variable {acc : List UInt8} {fs : List (Nat × List UInt8)}

/-- `handle_acl` on a packet that is cut. -/
theorem handleAcl_cut {p : List UInt8} (h : fragment p = none) :
    Meets (Buffered acc fs) (handleAcl p) fun _ => Buffered acc fs := by
  unfold handleAcl
  refine Meets.get fun s => ?_
  rw [reassemble_cut h]
  refine Meets.bind (R := fun _ => Buffered acc fs) (Meets.modify ?_) fun _ =>
    Meets.pure fun w hw => hw
  rintro w ⟨hw, rfl⟩
  exact hw

/-- `handle_acl` on a fragment. -/
theorem handleAcl_fragment {p : List UInt8} {f : Fragment} (h : fragment p = some f) :
    Meets (Buffered acc fs) (handleAcl p)
      fun _ => Buffered (received acc f).1 ((received acc f).2.toList ++ fs) := by
  unfold handleAcl
  refine Meets.get fun s => Meets.given (c := s.l2.content = acc) ?_ fun hacc => ?_
  · rintro w ⟨hw, rfl⟩
    exact hw.1
  obtain ⟨hframe, hnone, hsome⟩ := reassemble_fragment h s.l2
  rw [hacc] at hframe hnone hsome
  rw [← hframe]
  generalize reassemble s.l2 p = r at hframe hnone hsome ⊢
  obtain ⟨l2, r⟩ := r
  cases r with
  | none =>
    refine Meets.bind (R := fun _ => Buffered (received acc f).1 fs) (Meets.modify ?_) fun _ =>
      Meets.pure fun w hw => hw
    rintro w ⟨hw, rfl⟩
    exact ⟨hnone rfl, hw.2⟩
  | some c =>
    rw [hsome nofun]
    refine Meets.bind (R := fun _ w => (w.st.l2, frames w) = (l2, fs)) (Meets.modify ?_)
      fun _ => Meets.bind (l2capFrame_frames c.1 c.2 _ fs) fun _ => Meets.modify fun w hw => ?_
    · rintro w ⟨hw, rfl⟩
      exact Prod.mk.injEq .. |>.mpr ⟨rfl, hw.2⟩
    · exact ⟨rfl, (Prod.mk.inj hw).2⟩

/-- **The frames of a sequence of packets.** -/
theorem each_frames (ps : List (List UInt8)) :
    Meets (Buffered acc fs) (each handleAcl ps)
      fun _ w => frames w = (delivered acc (ps.filterMap fragment)).reverse ++ fs := by
  induction ps generalizing acc fs with
  | nil => exact Meets.pure fun w hw => hw.2
  | cons p ps ih =>
    cases h : fragment p with
    | none =>
      rw [List.filterMap_cons_none h]
      exact Meets.bind (handleAcl_cut h) fun _ => ih
    | some f =>
      rw [List.filterMap_cons_some h, delivered_cons, List.reverse_append, List.append_assoc]
      refine Meets.bind (handleAcl_fragment h) fun _ => ih.mono (fun _ hw => hw) fun _ w hw => ?_
      rw [hw]
      refine congrArg (_ ++ ·) (congrArg (· ++ _) ?_)
      cases (received acc f).2 <;> rfl

/-! ## A frame in pieces -/

theorem delivered_empty : ∀ {ds : List (List UInt8)}, ds.flatten = [] →
    delivered [] (ds.map (⟨false, ·⟩)) = []
  | [], _ => rfl
  | d :: ds, h => by
    obtain ⟨rfl, hds⟩ := List.append_eq_nil_iff.mp h
    rw [List.map_cons, delivered_stray rfl]
    exact (if_neg not_whole_nil).trans (delivered_empty hds)

/-- Only all of a frame is whole. -/
theorem whole_prefix {bs rest : List UInt8} (hf : get16 (bs ++ rest) 0 + 4 = (bs ++ rest).length)
    (hw : Whole bs) : rest = [] := by
  have h16 : get16 (bs ++ rest) 0 = get16 bs 0 := by
    have := hw.1
    simp only [get16, byte, List.getD_eq_getElem?_getD]
    rw [List.getElem?_append_left (by omega), List.getElem?_append_left (by omega)]
  have := hw.2
  rw [h16, List.length_append] at hf
  exact List.length_eq_zero_iff.mp (by omega)

/-- The rest of a frame of which the buffer holds the beginning `acc`. -/
theorem delivered_rest : ∀ {ds : List (List UInt8)} {acc : List UInt8}, ¬ Whole acc →
    4 ≤ (acc ++ ds.flatten).length → (acc ++ ds.flatten).length ≤ 256 →
    get16 (acc ++ ds.flatten) 0 + 4 = (acc ++ ds.flatten).length →
    delivered acc (ds.map (⟨false, ·⟩)) = [frameIn (acc ++ ds.flatten)]
  | [], acc, hn, h4, _, hf => by
    rw [List.flatten_nil, List.append_nil] at h4 hf
    exact absurd ⟨h4, Nat.le_of_eq hf⟩ hn
  | d :: ds, acc, hn, h4, h256, hf => by
    rw [List.flatten_cons, ← List.append_assoc] at h4 h256 hf ⊢
    have hl := h256
    rw [List.length_append] at hl
    have hfits : ¬ 256 < (acc ++ d).length := by omega
    rw [List.map_cons, delivered, if_neg Bool.false_ne_true, if_neg hfits]
    by_cases hw : Whole (acc ++ d)
    · have hrest := whole_prefix hf hw
      rw [if_pos hw, delivered_empty hrest, hrest, List.append_nil]
    · rw [if_neg hw]
      exact delivered_rest hw h4 h256 hf

/-- A start fragment, and the rest of the frame behind it. -/
theorem delivered_split {d : List UInt8} {ds : List (List UInt8)} (acc : List UInt8)
    (h4 : 4 ≤ (d ++ ds.flatten).length) (h256 : (d ++ ds.flatten).length ≤ 256)
    (hf : get16 (d ++ ds.flatten) 0 + 4 = (d ++ ds.flatten).length) :
    delivered acc (⟨true, d⟩ :: ds.map (⟨false, ·⟩)) = [frameIn (d ++ ds.flatten)] := by
  have hl := h256
  rw [List.length_append] at hl
  have hfits : ¬ 256 < d.length := by omega
  rw [delivered, if_pos rfl, if_neg hfits]
  by_cases hw : Whole d
  · have hrest := whole_prefix hf hw
    rw [if_pos hw, delivered_empty hrest, hrest, List.append_nil]
  · rw [if_neg hw]
    exact delivered_rest hw h4 h256 hf

theorem get16_cons_cons (v : Nat) (rest : List UInt8) (h : v < 2 ^ 16) : get16
    (put16 v ++ rest) 0 = v := by
  show (UInt8.ofNat v).toNat + 256 * (UInt8.ofNat (v / 256)).toNat = v
  rw [UInt8.toNat_ofNat', UInt8.toNat_ofNat']
  omega

/-- What `hci_acl_frame` makes comes out as it was. -/
theorem frameIn_hciAclFrame (handle : Nat) {cid : Nat} {payload : List UInt8} (hc : cid < 2 ^ 16)
    (hp : payload.length < 2 ^ 16) : frameIn ((hciAclFrame handle cid payload).drop 5) =
      (cid, payload) := by
  have h0 := get16_cons_cons payload.length (put16 cid ++ payload) hp
  have h2 := get16_cons_cons cid payload hc
  show (get16 (put16 cid ++ payload) 0,
    payload.take (get16 (put16 payload.length ++ (put16 cid ++ payload)) 0)) = (cid, payload)
  rw [h0, h2, List.take_length]

/-! ## Results -/

/-- **The frames are the expected ones exactly if there is no stray frame.** And a frame in any
number of pieces comes out once, as it was, whatever the buffer held. -/
theorem reassembly_iff (env : Nat → Answer) (w : World Call Daemon) (ps : List (List UInt8)) :
    (w.st.l2.len = 0 →
      (frames ((each handleAcl ps).run env w).2 =
          (expected none (ps.filterMap fragment)).reverse ++ frames w ↔
        NoStray none [] (ps.filterMap fragment))) ∧
    ∀ handle cid payload d (ds : List (List UInt8)), cid < 2 ^ 16 → payload.length ≤ 252 →
      d ++ ds.flatten = (hciAclFrame handle cid payload).drop 5 →
      ps.map fragment = some ⟨true, d⟩ :: ds.map (fun d => some ⟨false, d⟩) →
      frames ((each handleAcl ps).run env w).2 = (cid, payload) :: frames w := by
  constructor
  · intro h0
    have hw := each_frames ps env w ⟨rfl, rfl⟩
    rw [hw, (Buffer.content_eq_nil _).mpr h0, List.append_left_inj, List.reverse_inj]
    exact (delivered_expected (ps.filterMap fragment) none []).2
  · intro handle cid payload d ds hc hp hd hps
    have hfs : ps.filterMap fragment = ⟨true, d⟩ :: ds.map (⟨false, ·⟩) := by
      have h : ps.filterMap fragment = (ps.map fragment).filterMap id := by
        rw [List.filterMap_map]
        rfl
      rw [h, hps]
      simp [List.filterMap_map, Function.comp_def]
    have hlen : ((hciAclFrame handle cid payload).drop 5).length = payload.length + 4 := by
      simp only [hciAclFrame, put16, List.length_drop, List.length_append, List.length_cons,
        List.length_nil]
      omega
    have h16 : get16 ((hciAclFrame handle cid payload).drop 5) 0 = payload.length :=
      get16_cons_cons payload.length (put16 cid ++ payload) (by omega)
    have hw := each_frames ps env w ⟨rfl, rfl⟩
    rw [hw, hfs, delivered_split _ (by rw [hd]; omega) (by rw [hd]; omega) (by rw [hd, h16, hlen]),
      hd, frameIn_hciAclFrame handle hc (by omega)]
    rfl

/-- A continuation without a start: its bytes are an ATT Read request. -/
def strayRead : List UInt8 := [0x02, 0x40, 0x10, 0x07, 0x00, 0x03, 0x00, 0x04, 0x00, 0x0a, 0x05,
    0x00]

/-- It is handled as a frame, and none is expected. -/
theorem reassembly_stray :
    boot.st.l2.len = 0 ∧ expected none ([strayRead].filterMap fragment) = [] ∧
      frames ((each handleAcl [strayRead]).run (fun _ => {}) boot).2 =
        [(4, [0x0a, 0x05, 0x00])] := by
  decide +kernel

end Esp32S31.BleHa
