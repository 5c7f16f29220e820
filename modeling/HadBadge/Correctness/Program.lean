import HadBadge.Sdk.Loader

/-!
# `Correctness.Program`: the BASIC program in memory

`main` loads `program.bas` and hands the block to `mb_load_string` as a C string. The block has exactly the size of
the file, so the string ends at the first zero byte behind it, wherever that is. It is the file when the byte
after the block happens to be 0, as it is on a machine that has just started.
-/

namespace HadBadge

open Lib

/-- The beginning of `main` in `sdk/main.c`: the block, and the string that `mb_load_string` finds in it. `setup` is
    what `mb_init`, `mb_open` and `mybasicext_install` do to the memory in between. -/
def mainProgram (host : Host) (malloc : Malloc) (setup : Mem → Mem) (p : PeriCheat) (mem : Mem) (filename : UInt32) :
    Except Fault (Loaded × CStr) := do
  let basfile ← loadFile host malloc p mem filename
  let l ← strAt (setup basfile.mem) basfile.ret.toNat
  return (basfile, l)

/-- The size of the block that `load_file` asks for. -/
def requestedSize (host : Host) (p : PeriCheat) (mem : Mem) (filename : UInt32) : Except Fault UInt32 :=
  cheatReadFn host { p with filenameAddr := filename } mem cheatRawSizeReg

/-- The program is seen as it is on disk: the string is the file, and its terminator is in the block. -/
def ProgramSeen (host : Host) (malloc : Malloc) (setup : Mem → Mem) (p : PeriCheat) (mem : Mem) (filename : UInt32)
    (bytes : List UInt8) : Prop :=
  ∃ basfile size, mainProgram host malloc setup p mem filename = .ok (basfile, bytes) ∧
    requestedSize host p mem filename = .ok size ∧ bytes.length < size.toNat

/-- What `malloc` does for `load_file`: a block of `n` bytes in RAM, the memory there is and the caller's string
    left alone. -/
structure Malloc.ServesFile (malloc : Malloc) (mem : Mem) (filename : UInt32) (n : Nat) : Prop where
  grants : (malloc mem (UInt32.ofNat n)).1 ≠ 0
  fits : (malloc mem (UInt32.ofNat n)).1.toNat + n ≤ machRamSize
  dom : ∀ a, ((malloc mem (UInt32.ofNat n)).2 a).isSome = (mem a).isSome
  filename : strAt (malloc mem (UInt32.ofNat n)).2 filename.toNat = strAt mem filename.toNat

variable {host : Host} {malloc : Malloc} {setup : Mem → Mem} {p : PeriCheat} {mem : Mem} {filename : UInt32}
variable {name : CStr} {bytes : List UInt8}

/-! ## Bytes and strings -/

/-- Storing bytes that fit. -/
theorem setBytes_overwrite {out : Int} (h : ∀ k < bytes.length, (mem (out + (k : Nat))).isSome) :
    ∃ m', setBytes mem out bytes = .ok m' ∧
      ∀ k (hk : k < bytes.length), m' (out + (k : Nat)) = some (bytes.get ⟨k, hk⟩) := by
  -- on the bytes; `mem` and `out` change from one to the next
  suffices hgen : ∃ m', setBytes mem out bytes = .ok m' ∧ (∀ i, i < out → m' i = mem i) ∧
      ∀ k (hk : k < bytes.length), m' (out + (k : Nat)) = some (bytes.get ⟨k, hk⟩) by
    obtain ⟨m', hm', -, hbytes⟩ := hgen
    exact ⟨m', hm', hbytes⟩
  induction bytes generalizing mem out with
  | nil => exact ⟨mem, rfl, fun _ _ => rfl, fun _ hk => absurd hk (Nat.not_lt_zero _)⟩
  | cons b bs ih =>
      have h0 : (mem out).isSome := by simpa using h 0 (Nat.zero_lt_succ _)
      have hset : setU8 mem out b = .ok (mem.set out b) := setU8_eq_ok.mpr ⟨h0, rfl⟩
      have hrest : ∀ k < bs.length, ((mem.set out b) (out + 1 + (k : Nat))).isSome := by
        intro k hk
        have := h (k + 1) (Nat.succ_lt_succ hk)
        rw [Mem.set_apply, if_neg (by omega), show out + 1 + (k : Int) = out + ((k + 1 : Nat) : Int) by push_cast; ring]
        exact this
      obtain ⟨m', hm', hframe, hbytes⟩ := ih hrest
      refine ⟨m', ?_, ?_, ?_⟩
      · rw [setBytes, hset, ok_bind, hm']
      · intro i hi
        rw [hframe i (by omega), Mem.set_apply, if_neg (by omega)]
      · intro k hk
        rcases k with _ | k
        · have hfirst := hframe out (by omega)
          rw [Mem.set_apply, if_pos rfl] at hfirst
          simpa using hfirst
        · have := hbytes k (Nat.lt_of_succ_lt_succ hk)
          rw [show out + ((k + 1 : Nat) : Int) = out + 1 + (k : Nat) by push_cast; ring]
          exact this

/-- A string that starts with bytes that are not zero goes on behind them. -/
theorem strFrom_append {a : Int} (hnul : ∀ b ∈ bytes, b ≠ 0)
    (h : ∀ k (hk : k < bytes.length), mem (a + (k : Nat)) = some (bytes.get ⟨k, hk⟩)) (n : Nat) :
    strFrom (bytes.length + n) mem a = (strFrom n mem (a + bytes.length) >>= fun t => .ok (bytes ++ t)) := by
  induction bytes generalizing a with
  | nil =>
      simp only [List.length_nil, Nat.zero_add, Nat.cast_zero, add_zero, List.nil_append]
      cases strFrom n mem a <;> rfl
  | cons b bs ih =>
      have hb : u8At mem a = .ok b := u8At_eq_ok.mpr (by simpa using h 0 (Nat.zero_lt_succ _))
      have hrest := ih (a := a + 1) (fun c hc => hnul c (List.mem_cons_of_mem _ hc)) (by
        intro k hk
        have := h (k + 1) (Nat.succ_lt_succ hk)
        rw [show a + 1 + (k : Int) = a + ((k + 1 : Nat) : Int) by push_cast; ring]
        exact this)
      rw [show (b :: bs).length + n = (bs.length + n) + 1 by simp only [List.length_cons]; ring, strFrom, hb, ok_bind,
        if_neg (hnul b List.mem_cons_self), hrest,
        show a + ((b :: bs).length : Int) = a + 1 + (bs.length : Int) by simp only [List.length_cons]; push_cast; ring]
      cases strFrom n mem (a + 1 + bs.length) <;> rfl

/-- A string is empty where its first byte is 0. -/
theorem strFrom_nil_iff {a : Int} {n : Nat} : strFrom (n + 1) mem a = .ok [] ↔ mem a = some 0 := by
  constructor
  · intro h
    rw [strFrom] at h
    obtain ⟨b, hb, h⟩ := bind_eq_ok.mp h
    by_cases hzero : b = 0
    · subst hzero
      exact u8At_eq_ok.mp hb
    · rw [if_neg hzero] at h
      obtain ⟨t, -, h⟩ := bind_eq_ok.mp h
      cases h
  · intro h
    rw [strFrom, u8At_eq_ok.mpr h, ok_bind, if_pos rfl]
    rfl

/-- The string from a block of bytes that are not zero is the block exactly if a zero follows it. -/
theorem strAt_block_iff {a : Int} (hlen : bytes.length ≤ machRamSize) (hnul : ∀ b ∈ bytes, b ≠ 0)
    (h : ∀ k (hk : k < bytes.length), mem (a + (k : Nat)) = some (bytes.get ⟨k, hk⟩)) :
    strAt mem a = .ok bytes ↔ mem (a + bytes.length) = some 0 := by
  obtain ⟨n, hn⟩ := Nat.exists_eq_add_of_le hlen
  have hsplit := strFrom_append hnul h (n + 1)
  rw [strAt, show machRamSize + 1 = bytes.length + (n + 1) by omega, hsplit, ← strFrom_nil_iff (n := n)]
  constructor
  · intro hs
    obtain ⟨t, ht, hs⟩ := bind_eq_ok.mp hs
    have htail : bytes ++ t = bytes ++ [] := (Except.ok.inj hs).trans (List.append_nil bytes).symm
    rw [ht, List.append_cancel_left htail]
  · intro hs
    rw [hs, ok_bind, List.append_nil]

/-! ## `load_file` -/

/-- The block that `load_file` asks for has the size of the file. -/
theorem requestedSize_eq (hname : strAt mem filename.toNat = .ok name) (hfile : host.file name = some bytes)
    (hlen : bytes.length ≤ machRamSize) :
    requestedSize host p mem filename = .ok (UInt32.ofNat bytes.length) := by
  simp only [machRamSize] at hlen
  have hsize : u32 (getFileSize host name) = bytes.length := by
    rw [getFileSize, hfile]
    show u32 (i32 bytes.length) = bytes.length
    rw [u32_i32, u32_natCast, Nat.mod_eq_of_lt (by omega)]
  unfold requestedSize cheatReadFn
  rw [if_neg (by decide), if_neg (by decide), if_neg (by decide), if_neg (by decide), if_pos rfl, hname, ok_bind, hsize]
  rfl

/-- The device writes the file at the address in its register. -/
theorem cheatWriteFn_raw (hname : strAt mem p.filenameAddr.toNat = .ok name) (hfile : host.file name = some bytes)
    (hlen : bytes.length ≤ machRamSize) {out : UInt32} (hout : ∀ k < bytes.length, (mem (out.toNat + (k : Nat))).isSome) :
    ∃ m', cheatWriteFn host p mem cheatRawReadAddrReg out = .ok (p, m') ∧
      ∀ k (hk : k < bytes.length), m' (out.toNat + (k : Nat)) = some (bytes.get ⟨k, hk⟩) := by
  obtain ⟨m', hset, hbytes⟩ := setBytes_overwrite hout
  refine ⟨m', ?_, hbytes⟩
  unfold cheatWriteFn
  rw [if_neg (by decide), if_neg (by decide), if_neg (by decide), if_neg (by decide), if_pos rfl, hname, ok_bind]
  unfold cheatLoadFile
  rw [hfile]
  dsimp only
  rw [List.take_of_length_le (show bytes.length ≤ 8 * 1024 * 1024 from hlen), hset]
  rfl

/-- `load_file` on a file that fits: the bytes of the file, in the block that `malloc` grants. -/
theorem loadFile_block (r : Ram) (hname : strAt r.mem filename.toNat = .ok name) (hfile : host.file name = some bytes)
    (hm : malloc.ServesFile r.mem filename bytes.length) :
    ∃ o, loadFile host malloc p r.mem filename = .ok o ∧ o.ret = (malloc r.mem (UInt32.ofNat bytes.length)).1 ∧
      ∀ k (hk : k < bytes.length), o.mem (o.ret.toNat + (k : Nat)) = some (bytes.get ⟨k, hk⟩) := by
  have hfits := hm.fits
  have hlen : bytes.length ≤ machRamSize := by omega
  have hread := requestedSize_eq (p := p) hname hfile hlen
  unfold requestedSize at hread
  have hout : ∀ k < bytes.length, ((malloc r.mem (UInt32.ofNat bytes.length)).2
      ((malloc r.mem (UInt32.ofNat bytes.length)).1.toNat + (k : Nat))).isSome := by
    intro k hk
    rw [hm.dom]
    exact r.isSome_of_range (by omega) (by omega)
  obtain ⟨m', hwrite, hbytes⟩ := cheatWriteFn_raw (p := { p with filenameAddr := filename })
    (hm.filename.trans hname) hfile hlen hout
  refine ⟨⟨_, { p with filenameAddr := filename }, m'⟩, ?_, rfl, hbytes⟩
  unfold loadFile
  rw [cheatWriteFn_fnAddr, ok_bind]
  dsimp only
  unfold loadInto
  rw [hread, ok_bind]
  dsimp only
  rw [if_neg hm.grants, hwrite, ok_bind]
  rfl

/-- The terminator of a file is never in a block of the size of the file. -/
theorem programSeen_false (hname : strAt mem filename.toNat = .ok name) (hfile : host.file name = some bytes)
    (hlen : bytes.length ≤ machRamSize) : ¬ ProgramSeen host malloc setup p mem filename bytes := by
  rintro ⟨basfile, size, -, hsize, hlt⟩
  rw [requestedSize_eq hname hfile hlen] at hsize
  cases hsize
  rw [UInt32.toNat_ofNat'] at hlt
  exact absurd (Nat.mod_le _ _) (Nat.not_le.mpr hlt)

/-- **The BASIC program is never seen as it is on disk.** For every file without a zero byte that fits in the heap
    and every content of RAM: `main` passes the block with the bytes of the file, but the terminator is not in the
    block, and the string is the file only if the byte behind the block is 0. -/
theorem program_never_seen (r : Ram) (hname : strAt r.mem filename.toNat = .ok name)
    (hfile : host.file name = some bytes) (hnul : ∀ b ∈ bytes, b ≠ 0)
    (hm : malloc.ServesFile r.mem filename bytes.length)
    (hsetup : ∀ m k, k < bytes.length →
      setup m ((malloc r.mem (UInt32.ofNat bytes.length)).1.toNat + (k : Nat))
        = m ((malloc r.mem (UInt32.ofNat bytes.length)).1.toNat + (k : Nat))) :
    ¬ ProgramSeen host malloc setup p r.mem filename bytes ∧
    ∃ o, loadFile host malloc p r.mem filename = .ok o ∧
      (mainProgram host malloc setup p r.mem filename = .ok (o, bytes) ↔
        setup o.mem (o.ret.toNat + bytes.length) = some 0) := by
  have hlen : bytes.length ≤ machRamSize := by
    have := hm.fits
    omega
  refine ⟨programSeen_false hname hfile hlen, ?_⟩
  obtain ⟨o, ho, hret, hbytes⟩ := loadFile_block (p := p) r hname hfile hm
  refine ⟨o, ho, ?_⟩
  rw [← hret] at hsetup
  have hblock := strAt_block_iff hlen hnul (fun k hk => (hsetup o.mem k hk).trans (hbytes k hk))
  rw [← hblock, mainProgram, ho, ok_bind]
  constructor
  · intro h
    obtain ⟨l, hl, h⟩ := bind_eq_ok.mp h
    cases h
    exact hl
  · intro h
    rw [h]
    rfl

/-! ## A program of one line -/

/-- `PRINT 1` and a line feed. -/
def printOne : List UInt8 := [80, 82, 73, 78, 84, 32, 49, 10]

theorem printOne_ne_zero : ∀ b ∈ printOne, b ≠ 0 := by
  intro b hb
  simp only [printOne, List.mem_cons, List.not_mem_nil, or_false] at hb
  rcases hb with rfl | rfl | rfl | rfl | rfl | rfl | rfl | rfl <;> decide

/-- A host whose only file is the program, under the name `a`. -/
def printHost : Host :=
  { tmxHost (fun _ => none) with file := fun name => if name = [97] then some printOne else none }

/-- RAM of 255s but for the name at 8192. -/
def usedRam : Ram := ((Ram.fill 255).setByte 0x2000 97).setByte 0x2001 0

/-- A heap with one block, at 3 MiB. -/
def blockMalloc : Malloc := fun mem n => (if n ≤ 0x100000 then 0x300000 else 0, mem)

theorem usedRam_name : strAt usedRam.mem (0x2000 : UInt32).toNat = .ok [97] := by
  refine strAt_eq (by decide) (List.forall_mem_singleton.mpr (by decide)) ?_ (by decide)
  intro k hk
  obtain rfl : k = 0 := Nat.lt_one_iff.mp hk
  rfl

theorem blockMalloc_serves : blockMalloc.ServesFile usedRam.mem 0x2000 printOne.length := by
  refine ⟨by decide, by decide, ?_, rfl⟩
  intro i
  rfl

/-- The line in used memory: nothing terminates it. -/
theorem program_never_seen_print :
    ¬ ProgramSeen printHost blockMalloc id ⟨0, 0⟩ usedRam.mem 0x2000 printOne ∧
    ∃ o, loadFile printHost blockMalloc ⟨0, 0⟩ usedRam.mem 0x2000 = .ok o ∧
      (mainProgram printHost blockMalloc id ⟨0, 0⟩ usedRam.mem 0x2000 = .ok (o, printOne) ↔
        id o.mem (o.ret.toNat + printOne.length) = some 0) := by
  refine program_never_seen usedRam usedRam_name rfl printOne_ne_zero blockMalloc_serves ?_
  intro m k hk
  rfl

/-- Its terminator is not in its block. -/
theorem program_not_terminated :
    ¬ ∀ (host : Host) (malloc : Malloc) (setup : Mem → Mem) (p : PeriCheat) (r : Ram) (filename : UInt32)
      (name : CStr) (bytes : List UInt8), strAt r.mem filename.toNat = .ok name → host.file name = some bytes →
      1 ≤ bytes.length → (∀ b ∈ bytes, b ≠ 0) → malloc.ServesFile r.mem filename bytes.length →
      (∀ m k, k < bytes.length → setup m ((malloc r.mem (UInt32.ofNat bytes.length)).1.toNat + (k : Nat))
        = m ((malloc r.mem (UInt32.ofNat bytes.length)).1.toNat + (k : Nat))) →
      ProgramSeen host malloc setup p r.mem filename bytes := by
  intro hall
  have hseen := hall printHost blockMalloc id ⟨0, 0⟩ usedRam 0x2000 [97] printOne usedRam_name rfl (by decide)
    printOne_ne_zero blockMalloc_serves (fun _ _ _ => rfl)
  exact programSeen_false usedRam_name rfl (by decide) hseen

end HadBadge
