import Cando.Vm.Locals
import Cando.Vm.WellFormed

/-!
# Reading operands

The interpreter takes the operands of an instruction without looking at them. In a well-formed chunk it finds what it
needs, and jumps to where an instruction begins.
-/

namespace Cando

open Program

variable {ν : Type}

lemma Chunk.Emits.fits {c : Chunk ν} {is : List Instr} (h : c.Emits is) : ∀ i ∈ is, i.Fits := by
  induction h with
  | new => exact fun i mem => absurd mem List.not_mem_nil
  | emit _ fits ih =>
    intro i mem
    obtain mem | rfl := List.mem_append.mp mem |>.imp_right List.mem_singleton.mp
    · exact ih i mem
    · exact fits
  | @patch c front back j a _ operand ih =>
    intro i mem
    have old := ih j (List.mem_append_right _ List.mem_cons_self)
    obtain before | here | behind := List.mem_append.mp mem |>.imp_right List.mem_cons.mp
    · exact ih i (List.mem_append_left _ before)
    · subst here
      simp only [Instr.Fits] at old ⊢
      split at old
      · next fmt => exact absurd fmt operand
      · next fmt => simpa only [fmt] using ⟨Nat.mod_lt _ (by decide), old.2⟩
      · next fmt => simpa only [fmt] using ⟨Nat.mod_lt _ (by decide), old.2⟩
    · exact ih i (List.mem_append_right _ (List.mem_cons_of_mem _ behind))
  | unpop _ _ ih => exact fun i mem => ih i (List.mem_append_left _ mem)
  | keep _ _ ih => exact ih

/-- The distance leads the running frame to a position of the code that satisfies `B`. -/
def VM.Leads (B : Nat → Prop) (vm : VM ν) (chunk : Nat) (d : Int) : Prop :=
  ∃ t, B t ∧ targetAt d vm = .ok ⟨chunk, t⟩ vm ∧ jumpBy d vm = setIp ⟨chunk, t⟩ vm

section Reads

variable [F64 ν]

/-- What the running frame finds when it takes the operands of an instruction of the chunk. -/
def Instr.Reads (i : Instr) (B : Nat → Prop) (c : Chunk ν) (chunk : Nat) (vm : VM ν) : Prop :=
  match i.op.kind with
  | .value => ∃ v, constAt i.a vm = .ok v vm
  | .name => ∃ s, nameAt i.a vm = .ok s vm
  | .position => ∃ t w, B t ∧ constAt i.a vm = .ok w vm ∧
      (w = .number (F64.ofInt (t : Nat)) ∨ Chunk.sameConst w (.number (F64.ofInt (t : Nat))))
  | .slot => i.a < c.localCount
  | .ahead => vm.Leads B chunk (toI16 i.a)
  | .back => vm.Leads B chunk (-i.a)
  | .mark => vm.Leads B chunk i.a ∧ vm.Leads B chunk (-(i.b % 16384 : Nat))
  | .upvalue => False
  | .plain => True

variable {c : Chunk ν} {is : List Instr} {i : Instr} {vm : VM ν} {f : Frame} {fs : List Frame}

omit [F64 ν] in
lemma leads_of_eq {B : Nat → Prop} {d : Int} {t : Nat} (frames : vm.frames = f :: fs) (there : B t)
    (e : (f.ip.off : Int) + d = t) : vm.Leads B f.ip.chunk d := by
  have running : frame vm = .ok f vm := by rw [frame, frames]
  have ahead : ¬ (t : Int) < 0 := by omega
  refine ⟨t, there, ?_, ?_⟩
  · rw [targetAt, bind_apply, running, Outcome.bind_ok]
    simp only [e, if_neg ahead, Int.toNat_natCast]
    rfl
  · rw [jumpBy, bind_apply, running, Outcome.bind_ok]
    simp only [e, if_neg ahead, Int.toNat_natCast]

omit [F64 ν] in
lemma constAt_eq {ci : Nat} {v : Value ν} (frames : vm.frames = f :: fs) (chunk : vm.chunks[f.closure]? = some c)
    (found : c.constants[ci]? = some v) : constAt ci vm = .ok v vm := by
  simp only [constAt, bind_apply, frame, frames, Outcome.bind_ok, chunkOf, get_apply, chunk, orCrash_some, pure_apply,
    found]

/-- Behind an instruction of a well-formed chunk that is short enough for its distances, the operands are as the handler
takes them to be. -/
lemma Chunk.WellFormed.reads (wf : c.WellFormed is) (short : ((is.map Instr.op).map Opcode.size).sum < 16384)
    {off : Nat} (stands : Stands is off i) (frames : vm.frames = f :: fs) (ip : f.ip.off = off + i.op.size)
    (chunk : vm.chunks[f.closure]? = some c) :
    i.Loose (is.map Instr.op) ∨ i.Reads (Begins (is.map Instr.op)) c f.ip.chunk vm := by
  have placed := wf.placed off i stands
  have lands (d : Int) (mem : ((off + i.op.size : Nat) : Int) + d ∈ i.targets off) : i.Loose (is.map Instr.op) ∨
      vm.Leads (Begins (is.map Instr.op)) f.ip.chunk d := by
    refine (wf.lands short stands mem).symm.imp_right fun ⟨n, e, there⟩ => ?_
    exact leads_of_eq frames there (by rw [ip, e])
  rw [Instr.Reads]
  rw [Instr.Placed] at placed
  rw [Instr.targets] at lands
  split
  · next kind =>
    simp only [kind] at placed
    exact .inr ⟨_, constAt_eq frames chunk (List.getElem?_eq_getElem placed)⟩
  · next kind =>
    simp only [kind] at placed
    obtain ⟨s, found⟩ := placed
    refine .inr ⟨s, ?_⟩
    rw [nameAt, bind_apply, constAt_eq frames chunk found]
    rfl
  · next kind =>
    simp only [kind] at placed
    obtain ⟨t, there, w, found, same⟩ := placed
    exact .inr ⟨t, w, there, constAt_eq frames chunk found, same⟩
  · next kind =>
    simp only [kind] at placed
    exact .inr placed
  · next kind =>
    simp only [kind] at lands
    exact lands _ (List.mem_singleton.mpr rfl)
  · next kind =>
    simp only [kind] at lands
    exact lands _ (List.mem_singleton.mpr rfl)
  · next kind =>
    simp only [kind] at lands
    obtain loose | forth := lands _ List.mem_cons_self
    · exact .inl loose
    · exact (lands _ (List.mem_cons_of_mem _ List.mem_cons_self)).imp_right fun back => ⟨forth, back⟩
  · next kind =>
    simp only [kind] at placed
  · exact .inr trivial

/-- An instruction of a well-formed chunk is fetched, and behind it another one begins, unless it ends the run or the
call. -/
lemma Chunk.WellFormed.fetch (wf : c.WellFormed is) (stands : Stands is f.ip.off i) (frames : vm.frames = f :: fs)
    (chunk : vm.chunks[f.ip.chunk]? = some c) :
    fetch vm = .ok i { vm with frames := f.goto (f.ip.off + i.op.size) :: fs } ∧
      (Begins (is.map Instr.op) (f.ip.off + i.op.size) ∨ i.op = .halt ∨ i.op = .return) := by
  obtain ⟨before, last, whole, ends⟩ := wf.ends
  obtain ⟨front, back, rfl, off⟩ := stands
  have fits : i.Fits := wf.emits.fits i (List.mem_append_right _ List.mem_cons_self)
  constructor
  · refine fetch_goto frames chunk fits ?_
    have length : (Instr.encodeAll front).length = f.ip.off := by rw [Instr.encodeAll_length, off]
    rw [wf.emits.code, Instr.encodeAll_append, List.drop_left' length, Instr.encodeAll_cons]
    exact List.prefix_append _ _
  · cases back with
    | nil =>
      obtain ⟨-, here⟩ := List.append_inj' whole rfl
      obtain ⟨rfl, -⟩ := List.cons.inj here
      exact .inr ends
    | cons j back =>
      refine .inl ⟨(front ++ [i]).map Instr.op, j.op, back.map Instr.op, by simp, ?_⟩
      rw [off]
      simp

end Reads

end Cando
