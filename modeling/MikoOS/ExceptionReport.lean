import MikoOS.Exceptions
import MikoOS.Library.Numerals

/-!
# What an exception prints

`exception_dispatch` prints the vector, the error code, RIP and RSP, and for some vectors what the error
code means, CR2, or the selectors of CPL 3. The texts can be read back: two exceptions print the same
only if these values are the same.
-/

namespace MikoOS.Entry

open X86 Cpu UserMode Trap Numerals

/-- `NAMES`. -/
def exceptionNames : List String :=
  ["divide error", "debug", "NMI", "breakpoint", "overflow", "bounds", "undefined opcode",
    "device not available", "double fault", "coprocessor segment overrun", "invalid TSS",
    "segment not present", "stack segment fault", "general protection", "page fault", "reserved",
    "x87 FPU", "alignment check", "machine check", "SIMD", "virtualization", "control protection",
    "reserved", "reserved", "reserved", "reserved", "reserved", "reserved", "hypervisor injection",
    "VMM communication", "security", "reserved"]

def exceptionName (vector : BitVec 64) : String :=
  (exceptionNames[vector.toNat]?).getD "unknown interrupt"

def literal (text : String) : Piece := .literal text.toList

/-- `{}`. -/
def decimal (x : BitVec 64) : Piece := .number 10 1 x.toNat

/-- The digits of `{:#018x}`. -/
def hex64 (x : BitVec 64) : Piece := .number 16 16 x.toNat

/-- The digits of `{:#06x}`. -/
def hex16 (x : BitVec 64) : Piece := .number 16 4 x.toNat

def exceptionLine (vector error rip rsp : BitVec 64) : List Piece :=
  [literal "EXCEPTION ", decimal vector, literal (" (" ++ exceptionName vector ++ ") ERROR=0x"), hex64 error,
    literal " RIP=0x", hex64 rip, literal " RSP=0x", hex64 rsp, literal "\n"]

def selectorTable (error : BitVec 64) : String :=
  if error &&& 2 ≠ 0 then "IDT" else if error &&& 4 ≠ 0 then "LDT" else "GDT"

def selectorLine (error : BitVec 64) : List Piece :=
  [literal "Selector index=", decimal (error >>> 3), literal (" table=" ++ selectorTable error ++ " external="),
    .flag (error &&& 1 ≠ 0), literal "\n"]

def pageFaultLine (error cr2 : BitVec 64) : List Piece :=
  [literal "CR2=0x", hex64 cr2, literal " present=", .flag (error &&& 1 ≠ 0), literal " write=",
    .flag (error &&& 2 ≠ 0), literal " user=", .flag (error &&& 4 ≠ 0), literal " reserved=",
    .flag (error &&& 8 ≠ 0), literal " instruction_fetch=", .flag (error &&& 16 ≠ 0), literal "\n"]

def userLine (cs ss rflags : BitVec 64) : List Piece :=
  [literal "User exception context: CS=0x", hex16 cs, literal " SS=0x", hex16 ss, literal " RFLAGS=0x",
    hex64 rflags, literal "\n"]

/-- What `exception_dispatch` prints of a frame, one element for each `kprint!`. -/
def exceptionReport (cr2 : BitVec 64) (f : InterruptFrame) : List (List Char) :=
  render (exceptionLine f.vector f.error f.rip f.rsp) ::
    (if 10 ≤ f.vector ∧ f.vector ≤ 13 then [render (selectorLine f.error)] else []) ++
    (if f.vector = 14 then [render (pageFaultLine f.error cr2)] else []) ++
    (if f.cs &&& 3 = 3 then [render (userLine f.cs f.ss f.rflags)] else [])

/-- The report of a page fault at CPL 3. -/
example : exceptionReport 0xffff800000100000 ⟨fun _ => 0, 14, 5, 0x800123, 0x2b, 2, 0x9ffff8, 0x33⟩ =
    ["EXCEPTION 14 (page fault) ERROR=0x0000000000000005 RIP=0x0000000000800123 RSP=0x00000000009ffff8\n".toList,
      "CR2=0xffff800000100000 present=true write=false user=true reserved=false instruction_fetch=false\n".toList,
      "User exception context: CS=0x002b SS=0x0033 RFLAGS=0x0000000000000002\n".toList] := by
  decide

variable {vector error rip rsp cr2 cs ss rflags vector' error' rip' rsp' cr2' cs' ss' rflags' : BitVec 64}

theorem ends_literal {text : String} {c : Char} (hhead : text.toList.head? = some c)
    (hc : isDigit c = false) (l : List Piece) : Ends (render (literal text :: l)) := by
  intro c' hc'
  have hrender : render (literal text :: l) = text.toList ++ render l := rfl
  rw [hrender, List.head?_append, hhead] at hc'
  cases hc'
  exact hc

theorem decimal_inj {x y : BitVec 64} (h : decimal x = decimal y) : x = y :=
  BitVec.eq_of_toNat_eq (Piece.number.inj h).2.2

theorem hex64_inj {x y : BitVec 64} (h : hex64 x = hex64 y) : x = y :=
  BitVec.eq_of_toNat_eq (Piece.number.inj h).2.2

theorem hex16_inj {x y : BitVec 64} (h : hex16 x = hex16 y) : x = y :=
  BitVec.eq_of_toNat_eq (Piece.number.inj h).2.2

theorem exceptionLine_inj (h : render (exceptionLine vector error rip rsp) =
    render (exceptionLine vector' error' rip' rsp')) :
    vector = vector' ∧ error = error' ∧ rip = rip' ∧ rsp = rsp' := by
  have hname : ∀ x : BitVec 64, (" (" ++ exceptionName x ++ ") ERROR=0x").toList.head? = some ' ' := by
    intro x
    rw [String.append_assoc, String.toList_append, List.head?_append]
    rfl
  have hform : SameForm (exceptionLine vector error rip rsp) (exceptionLine vector' error' rip' rsp') := by
    apply SameForm.literal
    refine SameForm.number 1 (by decide) (by decide) (ends_literal (hname _) (by decide) _)
      (ends_literal (hname _) (by decide) _) ?_
    intro hvector
    obtain rfl := BitVec.eq_of_toNat_eq hvector
    apply SameForm.literal
    refine SameForm.number 16 (by decide) (by decide) (ends_literal rfl (by decide) _)
      (ends_literal rfl (by decide) _) ?_
    intro _
    apply SameForm.literal
    refine SameForm.number 16 (by decide) (by decide) (ends_literal rfl (by decide) _)
      (ends_literal rfl (by decide) _) ?_
    intro _
    apply SameForm.literal
    refine SameForm.number 16 (by decide) (by decide) (ends_literal rfl (by decide) _)
      (ends_literal rfl (by decide) _) ?_
    intro _
    exact .literal _ .nil
  have hpieces := hform.render_inj h
  simp only [exceptionLine, List.cons.injEq] at hpieces
  obtain ⟨-, hvector, -, herror, -, hrip, -, hrsp, -⟩ := hpieces
  exact ⟨decimal_inj hvector, hex64_inj herror, hex64_inj hrip, hex64_inj hrsp⟩

theorem pageFaultLine_inj (h : render (pageFaultLine error cr2) = render (pageFaultLine error cr2')) :
    cr2 = cr2' := by
  have hform : SameForm (pageFaultLine error cr2) (pageFaultLine error cr2') := by
    apply SameForm.literal
    refine SameForm.number 16 (by decide) (by decide) (ends_literal rfl (by decide) _)
      (ends_literal rfl (by decide) _) ?_
    intro hcr2
    obtain rfl := BitVec.eq_of_toNat_eq hcr2
    repeat
      apply SameForm.literal
      apply SameForm.flag
      intro _
    exact .literal _ .nil
  have hpieces := hform.render_inj h
  simp only [pageFaultLine, List.cons.injEq] at hpieces
  exact hex64_inj hpieces.2.1

theorem userLine_inj (h : render (userLine cs ss rflags) = render (userLine cs' ss' rflags')) :
    cs = cs' ∧ ss = ss' ∧ rflags = rflags' := by
  have hform : SameForm (userLine cs ss rflags) (userLine cs' ss' rflags') := by
    apply SameForm.literal
    refine SameForm.number 4 (by decide) (by decide) (ends_literal rfl (by decide) _)
      (ends_literal rfl (by decide) _) ?_
    intro _
    apply SameForm.literal
    refine SameForm.number 4 (by decide) (by decide) (ends_literal rfl (by decide) _)
      (ends_literal rfl (by decide) _) ?_
    intro _
    apply SameForm.literal
    refine SameForm.number 16 (by decide) (by decide) (ends_literal rfl (by decide) _)
      (ends_literal rfl (by decide) _) ?_
    intro _
    exact .literal _ .nil
  have hpieces := hform.render_inj h
  simp only [userLine, List.cons.injEq] at hpieces
  obtain ⟨-, hcs, -, hss, -, hrflags, -⟩ := hpieces
  exact ⟨hex16_inj hcs, hex16_inj hss, hex64_inj hrflags⟩

/-- What a report tells of two frames. -/
structure Alike (cr2 cr2' : BitVec 64) (f f' : InterruptFrame) : Prop where
  vector : f.vector = f'.vector
  error : f.error = f'.error
  rip : f.rip = f'.rip
  rsp : f.rsp = f'.rsp
  fault : f.vector = 14 → cr2 = cr2'
  user : f.cs &&& 3 = 3 ↔ f'.cs &&& 3 = 3
  context : f.cs &&& 3 = 3 → f.cs = f'.cs ∧ f.ss = f'.ss ∧ f.rflags = f'.rflags

theorem userLines_iff {f f' : InterruptFrame} :
    ((if f.cs &&& 3 = 3 then [render (userLine f.cs f.ss f.rflags)] else []) =
      if f'.cs &&& 3 = 3 then [render (userLine f'.cs f'.ss f'.rflags)] else []) ↔
    (f.cs &&& 3 = 3 ↔ f'.cs &&& 3 = 3) ∧
      (f.cs &&& 3 = 3 → f.cs = f'.cs ∧ f.ss = f'.ss ∧ f.rflags = f'.rflags) := by
  by_cases h : f.cs &&& 3 = 3
  · by_cases h' : f'.cs &&& 3 = 3
    · rw [if_pos h, if_pos h', List.cons.injEq]
      constructor
      · intro heq
        exact ⟨⟨fun _ => h', fun _ => h⟩, fun _ => userLine_inj heq.1⟩
      · rintro ⟨-, hsame⟩
        obtain ⟨hcs, hss, hrflags⟩ := hsame h
        rw [hcs, hss, hrflags]
        exact ⟨rfl, rfl⟩
    · rw [if_pos h, if_neg h']
      constructor
      · intro heq
        cases heq
      · rintro ⟨hiff, -⟩
        exact absurd (hiff.mp h) h'
  · by_cases h' : f'.cs &&& 3 = 3
    · rw [if_neg h, if_pos h']
      constructor
      · intro heq
        cases heq
      · rintro ⟨hiff, -⟩
        exact absurd (hiff.mpr h') h
    · rw [if_neg h, if_neg h']
      exact ⟨fun _ => ⟨⟨fun hu => absurd hu h, fun hu => absurd hu h'⟩, fun hu => absurd hu h⟩, fun _ => rfl⟩

theorem exceptionReport_iff {f f' : InterruptFrame} :
    exceptionReport cr2 f = exceptionReport cr2' f' ↔ Alike cr2 cr2' f f' := by
  unfold exceptionReport
  simp only [List.cons_append, List.cons.injEq, List.append_assoc]
  constructor
  · rintro ⟨hline, hlines⟩
    obtain ⟨hvector, herror, hrip, hrsp⟩ := exceptionLine_inj hline
    rw [← hvector, ← herror] at hlines
    have hrest := List.append_cancel_left hlines
    by_cases hfault : f.vector = 14
    · rw [if_pos hfault, if_pos hfault, List.singleton_append, List.singleton_append, List.cons.injEq] at hrest
      obtain ⟨huser, hcontext⟩ := userLines_iff.mp hrest.2
      exact ⟨hvector, herror, hrip, hrsp, fun _ => pageFaultLine_inj hrest.1, huser, hcontext⟩
    · rw [if_neg hfault, if_neg hfault, List.nil_append, List.nil_append] at hrest
      obtain ⟨huser, hcontext⟩ := userLines_iff.mp hrest
      exact ⟨hvector, herror, hrip, hrsp, fun h => absurd h hfault, huser, hcontext⟩
  · intro h
    rw [h.vector, h.error, h.rip, h.rsp, userLines_iff.mpr ⟨h.user, h.context⟩]
    refine ⟨rfl, ?_⟩
    by_cases hfault : f'.vector = 14
    · rw [h.fault (h.vector.trans hfault)]
    · rw [if_neg hfault, if_neg hfault]

theorem label_lt {v : ℕ} (hv : v < 256) : label v < 256 := by
  unfold label
  split
  · exact hv
  · decide

theorem ofNat_label_inj {v v' : ℕ} (hv : v < 256) (hv' : v' < 256) :
    BitVec.ofNat 64 (label v) = BitVec.ofNat 64 (label v') ↔ label v = label v' := by
  have hlt := label_lt hv
  have hlt' := label_lt hv'
  constructor
  · intro h
    have hnat := congrArg BitVec.toNat h
    rwa [BitVec.toNat_ofNat, BitVec.toNat_ofNat, Nat.mod_eq_of_lt (by omega), Nat.mod_eq_of_lt (by omega)]
      at hnat
  · intro h
    rw [h]

theorem label_eq_fourteen {v : ℕ} : label v = 14 ↔ v = 14 := by
  unfold label
  split <;> omega

theorem setWidth_inj {x y : BitVec 16} : x.setWidth 64 = y.setWidth 64 ↔ x = y := by
  constructor
  · intro h
    have hback := congrArg (BitVec.setWidth 16) h
    simpa using hback
  · intro h
    rw [h]

theorem privilege_setWidth {x : BitVec 16} : x.setWidth 64 &&& 3 = 3 ↔ x &&& 3 = 3 := by
  have hwide : x.setWidth 64 &&& 3 = (x &&& 3).setWidth 64 := by
    rw [BitVec.setWidth_and]
    rfl
  have hthree : (3 : BitVec 64) = (3 : BitVec 16).setWidth 64 := by decide
  rw [hwide, hthree]
  exact setWidth_inj

section Entries

variable {d : TableImage} {s s' t t' : Cpu} {v v' : ℕ} {calls : List TableCall}

/-- What the dispatcher of an exception is handed. -/
def reportedFrame (returnTo : BitVec 64) (vector : ℕ) (t : Cpu) : InterruptFrame :=
  let c := entryCode returnTo vector t
  readInterruptFrame c.ram (c.reg .rdi)

/-- Two exceptions taken anywhere, with any stacks and registers: the kernel prints the same of them
exactly if the reported vector, the error code, RIP and RSP are the same, CR2 where it is printed, and
CS, SS and RFLAGS if they come from CPL 3. -/
theorem report_tells (hd : d.Linked) (hcalls : ∀ c ∈ calls, c.Later) (hs : Tabled d calls s)
    (hs' : Tabled d calls s') (hv : Settled calls v) (hv' : Settled calls v') (returnTo : BitVec 64)
    {cause cause' : Cause} (hexpected : Expected cause v) (hexpected' : Expected cause' v')
    (ht : deliver d.loaded cause v s = some t) (ht' : deliver d.loaded cause' v' s' = some t') :
    exceptionReport cr2 (reportedFrame returnTo v t) = exceptionReport cr2' (reportedFrame returnTo v' t') ↔
      label v = label v' ∧ Cause.reported cause v = Cause.reported cause' v' ∧ s.rip = s'.rip ∧
        s.reg .rsp = s'.reg .rsp ∧ (v = 14 → cr2 = cr2') ∧ (s.cs &&& 3 = 3 ↔ s'.cs &&& 3 = 3) ∧
        (s.cs &&& 3 = 3 → s.cs = s'.cs ∧ s.ss = s'.ss ∧ s.flags = s'.flags) := by
  have hframe : Reports (reportedFrame returnTo v t) (label v) (Cause.reported cause v) s :=
    (settled_entered hd hcalls hs hv returnTo hexpected ht).2.frame
  have hframe' : Reports (reportedFrame returnTo v' t') (label v') (Cause.reported cause' v') s' :=
    (settled_entered hd hcalls hs' hv' returnTo hexpected' ht').2.frame
  have hfourteen : (BitVec.ofNat 64 (label v) = 14) ↔ v = 14 := by
    have hlabel := ofNat_label_inj hv.1 (show 14 < 256 by decide)
    exact hlabel.trans label_eq_fourteen
  rw [exceptionReport_iff]
  constructor
  · intro h
    have hvector := h.vector
    have hfault := h.fault
    have huser := h.user
    have hcontext := h.context
    rw [hframe.vector, hframe'.vector, ofNat_label_inj hv.1 hv'.1] at hvector
    rw [hframe.vector, hfourteen] at hfault
    rw [hframe.cs, hframe'.cs, privilege_setWidth, privilege_setWidth] at huser
    rw [hframe.cs, hframe'.cs, hframe.ss, hframe'.ss, hframe.rflags, hframe'.rflags, privilege_setWidth,
      setWidth_inj, setWidth_inj] at hcontext
    exact ⟨hvector, by rw [← hframe.error, h.error, hframe'.error], by rw [← hframe.rip, h.rip, hframe'.rip],
      by rw [← hframe.rsp, h.rsp, hframe'.rsp], hfault, huser, hcontext⟩
  · rintro ⟨hvector, herror, hrip, hrsp, hfault, huser, hcontext⟩
    constructor
    · rw [hframe.vector, hframe'.vector, hvector]
    · rw [hframe.error, hframe'.error, herror]
    · rw [hframe.rip, hframe'.rip, hrip]
    · rw [hframe.rsp, hframe'.rsp, hrsp]
    · rw [hframe.vector, hfourteen]
      exact hfault
    · rw [hframe.cs, hframe'.cs, privilege_setWidth, privilege_setWidth]
      exact huser
    · rw [hframe.cs, hframe'.cs, hframe.ss, hframe'.ss, hframe.rflags, hframe'.rflags, privilege_setWidth,
        setWidth_inj, setWidth_inj]
      exact hcontext

end Entries

/-- A page fault and a general protection fault of one instruction. -/
theorem report_tells_sample : ∃ s t t' : Cpu, deliver sampleTables.loaded (.hardware 5) 14 s = some t ∧
    deliver sampleTables.loaded (.hardware 0) 13 s = some t' ∧
    exceptionReport 0x800000 (reportedFrame 0 14 t) ≠ exceptionReport 0x800000 (reportedFrame 0 13 t') := by
  obtain ⟨m, hm⟩ := exists_holds sampleTables_linked (fun c hc => (sampleCalls_later c hc).allowed)
    fun _ => 0xff
  have htabled : Tabled sampleTables sampleCalls (userCaller m) := hm
  have hfault : Settled sampleCalls 14 := ⟨by decide, .inl (by decide)⟩
  have hprotection : Settled sampleCalls 13 := ⟨by decide, .inl (by decide)⟩
  obtain ⟨t, ht⟩ := Option.isSome_iff_exists.mp (hardware_delivered sampleCalls_later htabled hfault 5)
  obtain ⟨t', ht'⟩ := Option.isSome_iff_exists.mp
    (hardware_delivered sampleCalls_later htabled hprotection 0)
  refine ⟨userCaller m, t, t', ht, ht', ?_⟩
  rw [ne_eq, report_tells sampleTables_linked sampleCalls_later htabled htabled hfault hprotection 0
    (by decide) (by decide) ht ht']
  exact fun h => absurd h.1 (by decide)

end MikoOS.Entry
