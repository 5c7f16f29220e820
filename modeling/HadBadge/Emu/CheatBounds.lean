import HadBadge.Emu.Bounds
import HadBadge.Emu.PeriCheat

/-!
# `Emu.CheatBounds`: where the cheat device reads and writes

A command of the cheat device reads names at an address that the guest chose and stores what it loads at another.
This module says when all of that lies in RAM. `write_map` prints the file's name where it gives up, after it has
written the header and some cells: `cheatWriteShown` is the device with that last read.

## Contents
- **Names.** `NameEnds`: the string ends before RAM does.
- **Files.** `TilesetInside`, `RawInside`, `MapInside`; `mapMem`, what `write_map` leaves in memory.
- **The device.** `CheatWriteInside`, `CheatReadInside`.
-/

namespace HadBadge

open Lib

/-! ## Names -/

/-- The string at `&mem[p]` has a terminator. -/
def NameEnds (mem : Mem) (p : Int) : Prop := ∃ k : Nat, mem (p + k) = some 0

/-- A byte that is not the terminator does not end the string. -/
theorem nameEnds_succ {mem : Mem} {p : Int} {b : UInt8} (hb : mem p = some b) (hb0 : b ≠ 0) :
    NameEnds mem (p + 1) ↔ NameEnds mem p := by
  have hshift (k : Nat) : p + 1 + k = p + (k + 1 : Nat) := by
    push_cast
    ring
  constructor
  · rintro ⟨k, hk⟩
    rw [hshift] at hk
    exact ⟨k + 1, hk⟩
  · rintro ⟨k, hk⟩
    rcases k with _ | k
    · rw [Nat.cast_zero, add_zero, hb] at hk
      exact absurd (Option.some.inj hk) hb0
    · rw [← hshift] at hk
      exact ⟨k, hk⟩

variable {r : Ram}

/-- A string is read to its terminator, or its reader leaves RAM. -/
theorem strFrom_ends {n : Nat} {p : Int} (hp : 0 ≤ p) (hn : 0 < n) (hend : (machRamSize : Int) < p + n) :
    OnlyOob (strFrom n r.mem p) ∧ ((∃ s, strFrom n r.mem p = .ok s) ↔ NameEnds r.mem p) := by
  -- on the bytes that may be looked at; a byte that was read lies in RAM, so another may be looked at
  induction n generalizing p with
  | zero => exact absurd hn (Nat.lt_irrefl 0)
  | succ n ih =>
      cases hb : r.mem p with
      | none =>
          have hread : strFrom (n + 1) r.mem p = .error (.oob p) := by
            rw [strFrom, u8At, hb]
            rfl
          rw [hread]
          refine ⟨fun e he => ⟨p, by cases he; rfl⟩, iff_of_false ?_ ?_⟩
          · rintro ⟨s, hs⟩
            cases hs
          · rintro ⟨k, hk⟩
            -- nothing above an index that is not in RAM is in RAM
            have hin := (r.dom _).mp (by rw [hk]; rfl)
            have hout := mt (r.dom p).mpr (by rw [hb]; exact Bool.false_ne_true)
            omega
      | some b =>
          have hread : strFrom (n + 1) r.mem p
              = if b = 0 then .ok [] else strFrom n r.mem (p + 1) >>= fun s => .ok (b :: s) := by
            rw [strFrom, u8At_eq_ok.mpr hb]
            rfl
          rw [hread]
          by_cases hb0 : b = 0
          · rw [if_pos hb0]
            exact ⟨onlyOob_ok _, iff_of_true ⟨_, rfl⟩ ⟨0, by rw [← hb0, ← hb]; simp⟩⟩
          · rw [if_neg hb0]
            have hin := (r.dom p).mp (by rw [hb]; rfl)
            push_cast at hend
            obtain ⟨honly, hiff⟩ := ih (p := p + 1) (by omega) (by omega) (by omega)
            refine ⟨honly.bind (fun s _ => onlyOob_ok _), ?_⟩
            rw [← nameEnds_succ hb hb0, ← hiff, bind_ok_total]

theorem strAt_ends (v : UInt32) :
    OnlyOob (strAt r.mem v.toNat) ∧ ((∃ s, strAt r.mem v.toNat = .ok s) ↔ NameEnds r.mem v.toNat) :=
  strFrom_ends (by omega) (by omega) (by omega)

/-- A name is read inside RAM exactly when it ends there. -/
theorem strAt_inBounds (v : UInt32) : InBounds (strAt r.mem v.toNat) ↔ NameEnds r.mem v.toNat := by
  rw [(strAt_ends v).1.inBounds_iff, (strAt_ends v).2]

/-! ## Tilesets and raw files -/

/-- The `n` bytes from `out` on are in RAM. -/
def BytesInRam (out : Int) (n : Nat) : Prop := ∀ k < n, RamIndex (out + (k : Nat))

theorem setBytes_onlyOob (mem : Mem) (out : Int) (bs : List UInt8) : OnlyOob (setBytes mem out bs) := by
  induction bs generalizing mem out with
  | nil => exact onlyOob_ok mem
  | cons b bs ih => exact (onlyOob_setU8 mem out b).bind (fun m _ => ih m (out + 1))

/-- Bytes are stored where there is memory for all of them. -/
theorem setBytes_ok_iff {mem : Mem} {out : Int} {bs : List UInt8} :
    (∃ m, setBytes mem out bs = .ok m) ↔ ∀ k < bs.length, (mem (out + (k : Nat))).isSome := by
  -- on the bytes, one store a step
  induction bs generalizing mem out with
  | nil => exact iff_of_true ⟨mem, rfl⟩ (fun k hk => absurd hk (Nat.not_lt_zero k))
  | cons b bs ih =>
      have hshift (k : Nat) : out + ((k + 1 : Nat) : Int) = out + 1 + k := by push_cast; ring
      constructor
      · rintro ⟨m, hm⟩ k hk
        obtain ⟨m₁, hm₁, hm⟩ := bind_eq_ok.mp hm
        rcases k with _ | k
        · simpa using (setU8_eq_ok.mp hm₁).1
        · rw [hshift, ← setU8_dom hm₁]
          exact ih.mp ⟨m, hm⟩ k (by simpa using hk)
      · intro h
        have h0 : (mem out).isSome := by simpa using h 0 (by simp)
        have hm₁ : setU8 mem out b = .ok (mem.set out b) := if_pos h0
        have hrest : ∃ m, setBytes (mem.set out b) (out + 1) bs = .ok m := by
          refine ih.mpr (fun k hk => ?_)
          rw [setU8_dom hm₁, ← hshift]
          exact h (k + 1) (by simpa using hk)
        obtain ⟨m, hm⟩ := hrest
        exact ⟨m, bind_eq_ok.mpr ⟨_, hm₁, hm⟩⟩

/-- What a raw file leaves in RAM at `out`: as many of its bytes as there are in 8 MiB. -/
def RawInside (host : Host) (name : CStr) (out : Int) : Prop :=
  ∀ bytes, host.file name = some bytes → BytesInRam out (min (8 * 1024 * 1024) bytes.length)

theorem cheatLoadFile_inBounds {host : Host} {name : CStr} {out : Int} :
    InBounds (cheatLoadFile host name out r.mem) ↔ RawInside host name out := by
  unfold cheatLoadFile RawInside BytesInRam
  cases hfile : host.file name with
  | none =>
      refine iff_of_true (inBounds_ok _) ?_
      intro bytes hbytes
      cases hbytes
  | some bytes =>
      dsimp only
      rw [(setBytes_onlyOob _ _ _).inBounds_iff, setBytes_ok_iff, List.length_take]
      simp only [r.isSome_iff, Option.some.injEq, forall_eq']

/-- The tiles of an image, stored at `out`. -/
def TilesetInside (gd : Gd) (name : CStr) (out : Int) : Prop :=
  ∀ f im, gd.fopen name = some f → gd.imageCreateFromPng f = some im →
    BytesInRam out (64 * (((gd.imageSX im).tdiv 8).toNat * ((gd.imageSY im).tdiv 8).toNat))

theorem tilesetLoops_onlyOob (gd : Gd) (im : gd.Image) (w h : Int) (s : TilesetLoop) :
    OnlyOob (tilesetLoops gd im w h s) := by
  refine OnlyOob.forFrom (fun y s => OnlyOob.forFrom (fun x s => ?_) _ _ _) _ _ _
  refine OnlyOob.forFrom (fun yy s => OnlyOob.forFrom (fun xx s => ?_) _ _ _) _ _ _
  exact (onlyOob_setU8 _ _ _).bind (fun m _ => onlyOob_ok _)

/-- The loops end where there is memory for every texel. -/
theorem tilesetLoops_ok_iff (gd : Gd) (im : gd.Image) (w h : Int) (out : Int) (mem : Mem) :
    (∃ t, tilesetLoops gd im w h ⟨out, mem⟩ = .ok t) ↔
      ∀ k < 64 * (w.toNat * h.toNat), (mem (out + (k : Nat))).isSome := by
  constructor
  · rintro ⟨t, ht⟩
    -- after `k` pixels the pointer has passed `k` bytes that are there
    let I : Nat → TilesetLoop → Prop := fun k s =>
      s.out = out + k ∧ (∀ a, (s.mem a).isSome = (mem a).isSome) ∧ ∀ j < k, (mem (out + (j : Nat))).isSome
    have hstep : ∀ (x y yy xx : Nat) (s t : TilesetLoop) k, I k s → tilesetStep gd im x y yy xx s = .ok t →
        I (k + 1) t := by
      rintro x y yy xx s t k ⟨hout, hdom, hin⟩ hst
      obtain ⟨m, hm, hst⟩ := bind_eq_ok.mp hst
      cases hst
      refine ⟨by simp only [hout]; push_cast; ring, fun a => (setU8_dom hm a).trans (hdom a), ?_⟩
      intro j hj
      rcases Nat.lt_succ_iff_lt_or_eq.mp hj with hlt | rfl
      · exact hin j hlt
      · rw [← hdom, ← hout]
        exact (setU8_eq_ok.mp hm).1
    have hall := forFrom_count (I := I) (w.toNat * (8 * (8 * 1)))
      (fun y s t k hs ht => forFrom_count (8 * (8 * 1))
        (fun x s t k hs ht => forFrom_count (8 * 1)
          (fun yy s t k hs ht => forFrom_count 1
            (fun xx s t k hs ht => hstep x y yy xx s t k hs ht) 8 0 hs ht) 8 0 hs ht) w.toNat 0 hs ht)
      h.toNat 0 (k := 0) ⟨by simp, fun a => rfl, fun j hj => absurd hj (Nat.not_lt_zero j)⟩ ht
    intro k hk
    refine hall.2.2 k ?_
    rw [show 0 + h.toNat * (w.toNat * (8 * (8 * 1))) = 64 * (w.toNat * h.toNat) by ring]
    exact hk
  · intro hmem
    have hloops : tilesetLoops gd im w.toNat h.toNat ⟨out, mem⟩ = .ok _ := tilesetLoops_at hmem
    unfold tilesetLoops at hloops ⊢
    rw [Int.toNat_natCast, Int.toNat_natCast] at hloops
    exact ⟨_, hloops⟩

theorem genTileset_inBounds {gd : Gd} {name : CStr} {out : Int} :
    InBounds (tileLoaderGenTileset gd name (some out) r.mem) ↔ TilesetInside gd name out := by
  unfold tileLoaderGenTileset TilesetInside BytesInRam
  cases hf : gd.fopen name with
  | none =>
      refine iff_of_true (inBounds_ok _) ?_
      intro f im hf'
      cases hf'
  | some f =>
      dsimp only
      cases him : gd.imageCreateFromPng f with
      | none =>
          refine iff_of_true (inBounds_ok _) ?_
          intro f' im hf' him'
          cases hf'
          rw [him] at him'
          cases him'
      | some im =>
          dsimp only
          rw [inBounds_bind, (tilesetLoops_onlyOob _ _ _ _ _).inBounds_iff, tilesetLoops_ok_iff]
          simp only [r.isSome_iff]
          constructor
          · rintro ⟨h, -⟩ f' im' hf' him'
            cases hf'
            rw [him] at him'
            cases him'
            exact h
          · intro h
            exact ⟨h f im rfl him, fun a _ => inBounds_ok _⟩

/-- The size query stores nothing. -/
theorem genTileset_size (gd : Gd) (name : CStr) (mem : Mem) :
    ∃ ret, tileLoaderGenTileset gd name none mem = .ok (ret, mem) := by
  unfold tileLoaderGenTileset
  cases hf : gd.fopen name with
  | none => exact ⟨_, rfl⟩
  | some f =>
      dsimp only
      cases him : gd.imageCreateFromPng f with
      | none => exact ⟨_, rfl⟩
      | some im => exact ⟨_, rfl⟩

/-! ## Maps -/

/-- Memory after the entries that are there, of the `n` cells from `base` on, have been stored. -/
def tilesMem (entry : Nat → Option Int) (n : Nat) (base : Int) (mem : Mem) : Mem := fun a =>
  if base ≤ a ∧ a < base + 2 * n then
    match entry ((a - base).toNat / 2) with
    | some e => some (leByte ((a - base).toNat % 2) (entryTile e))
    | none   => mem a
  else mem a

/-- The memory that `write_map` leaves for a layer of `w × h` entries: the header, and the entries that are there. -/
def mapMem (xml : LibXml) (doc : xml.Doc) (layer : xml.Node) (w h : Int) (out : Int) (mem : Mem) : Mem :=
  tilesMem (layerEntry xml doc layer) (layerCells w h) (out + 4)
    ((mem.overwrite out 2 (fun k => leByte k (u16 w))).overwrite (out + 2) 2 (fun k => leByte k (u16 h)))

/-- What the map of a layer changes: the header, and the cells of the entries that are there. -/
theorem mapMem_changed {xml : LibXml} {doc : xml.Doc} {layer : xml.Node} {w h out : Int} {mem : Mem} {a : Int}
    (hne : mapMem xml doc layer w h out mem a ≠ mem a) :
    (out ≤ a ∧ a < out + 4) ∨ ∃ j < layerCells w h, (layerEntry xml doc layer j).isSome ∧
      out + 4 + 2 * (j : Int) ≤ a ∧ a < out + 4 + 2 * (j : Int) + 2 := by
  by_contra hno
  rw [not_or] at hno
  obtain ⟨hhead, hcells⟩ := hno
  apply hne
  unfold mapMem tilesMem Mem.overwrite
  by_cases hin : out + 4 ≤ a ∧ a < out + 4 + 2 * layerCells w h
  · rw [if_pos hin]
    have hnone : layerEntry xml doc layer ((a - (out + 4)).toNat / 2) = none := by
      rw [← Option.not_isSome_iff_eq_none]
      exact fun hsome => hcells ⟨_, by omega, hsome, by omega, by omega⟩
    rw [hnone, if_neg (by push_cast; omega), if_neg (by push_cast; omega)]
  · rw [if_neg hin, if_neg (by push_cast; omega), if_neg (by push_cast; omega)]

/-- A map is written to its block only. -/
theorem mapMem_frame {xml : LibXml} {doc : xml.Doc} {layer : xml.Node} {w h out : Int} {mem : Mem} {a : Int}
    (ha : a < out ∨ out + 4 + 2 * layerCells w h ≤ a) : mapMem xml doc layer w h out mem a = mem a := by
  by_contra hne
  rcases mapMem_changed hne with ⟨hlo, hhi⟩ | ⟨j, hj, -, hlo, hhi⟩
  · omega
  · omega

theorem tilesMem_none {entry : Nat → Option Int} {n : Nat} {base : Int} {mem : Mem}
    (h : ∀ j < n, entry j = none) : tilesMem entry n base mem = mem := by
  funext a
  unfold tilesMem
  by_cases ha : base ≤ a ∧ a < base + 2 * n
  · rw [if_pos ha, h _ (by omega)]
  · rw [if_neg ha]

theorem setU16_overwrite {m m' : Mem} {a : Int} {v : Nat} (h : setU16 m a v = .ok m') :
    m' = m.overwrite a 2 (fun k => leByte k v) :=
  (Mem.store_eq_some_iff.mp (setU16_eq_ok.mp h)).2

/-- One cell, then the cells behind it. -/
theorem tilesMem_cons {entry entry' : Nat → Option Int} {n : Nat} {base : Int} {mem : Mem} {e : Int}
    (h0 : entry 0 = some e) (hsucc : ∀ j, entry (j + 1) = entry' j) :
    tilesMem entry (n + 1) base mem
      = tilesMem entry' n (base + 2) (mem.overwrite base 2 (fun k => leByte k (entryTile e))) := by
  funext a
  unfold tilesMem Mem.overwrite
  by_cases hcell : base ≤ a ∧ a < base + 2
  · have hzero : (a - base).toNat / 2 = 0 := by omega
    have hmod : (a - base).toNat % 2 = (a - base).toNat := by omega
    rw [if_pos (by push_cast; omega), if_neg (by omega), hzero, h0, if_pos (by push_cast; omega)]
    dsimp only
    rw [hmod]
  · by_cases hrest : base + 2 ≤ a ∧ a < base + 2 + 2 * n
    · have hidx : (a - base).toNat / 2 = (a - (base + 2)).toNat / 2 + 1 := by omega
      have hmod : (a - base).toNat % 2 = (a - (base + 2)).toNat % 2 := by omega
      rw [if_pos (by push_cast; omega), if_pos hrest, hidx, hsucc, hmod, if_neg (by push_cast; omega)]
    · rw [if_neg (by push_cast; omega), if_neg hrest, if_neg (by push_cast; omega)]

/-- What the entry loop leaves in memory. -/
theorem writeTiles_mem {count out : Int} {n i : Nat} {csv : CStr} {mem mem' : Mem} {done : Bool}
    (hcount : (i : Int) + n = count) (h : writeTiles count out n i (some csv) mem = .ok (done, mem')) :
    mem' = tilesMem (csvEntry csv) n (out + 4 + 2 * i) mem := by
  -- on the iterations left, as the loop runs
  induction n generalizing i csv mem with
  | zero =>
      cases h
      rw [tilesMem_none (fun j hj => absurd hj (Nat.not_lt_zero j))]
  | succ n ih =>
      obtain ⟨mem₁, hset, h⟩ := bind_eq_ok.mp h
      have hmem₁ := setU16_overwrite hset
      cases hrest : afterSep 44 csv with
      | some rest =>
          rw [hrest] at h
          rw [tilesMem_cons (csvEntry_zero csv) (csvEntry_succ hrest), ih (by push_cast at hcount ⊢; omega) h, hmem₁]
          congr 1
          push_cast
          ring
      | none =>
          -- the text ends here: there are no further entries
          have hnone (j : Nat) : csvEntry csv (j + 1) = none := by
            rw [csvEntry, field_succ, hrest]
            rfl
          rw [tilesMem_cons (csvEntry_zero csv) hnone, tilesMem_none (fun j _ => rfl)]
          rw [hrest] at h
          dsimp only at h
          by_cases hlast : (i : Int) ≠ count - 1
          · rw [if_pos hlast] at h
            cases h
            exact hmem₁
          · rw [if_neg hlast] at h
            obtain rfl : n = 0 := by push_cast at hcount; omega
            cases h
            exact hmem₁

theorem writeTiles_onlyOob {count out : Int} {n i : Nat} (hcount : (i : Int) + n = count) (csv : CStr) (mem : Mem) :
    OnlyOob (writeTiles count out n i (some csv) mem) := by
  induction n generalizing i csv mem with
  | zero => exact onlyOob_ok _
  | succ n ih =>
      refine (onlyOob_setU16 _ _ _).bind (fun m _ => ?_)
      cases hrest : afterSep 44 csv with
      | some rest => exact ih (by push_cast at hcount ⊢; omega) rest m
      | none =>
          dsimp only
          by_cases hlast : (i : Int) ≠ count - 1
          · rw [if_pos hlast]
            exact onlyOob_ok _
          · obtain rfl : n = 0 := by push_cast at hcount; omega
            rw [if_neg hlast]
            exact onlyOob_ok _

variable {xml : LibXml} {doc : xml.Doc} {layer : xml.Node} {out : Int} {mem mem' : Mem}

/-- A block of `4 + 2 * n` bytes has room for `n` cells. -/
theorem cellInMem_of_block {n : Nat} (hout : ∀ k < 4 + 2 * n, (mem (out + (k : Nat))).isSome) {j : Nat} (hj : j < n) :
    CellInMem mem out j := by
  have hlow := hout (4 + 2 * j) (by omega)
  have hhigh := hout (4 + 2 * j + 1) (by omega)
  rw [show out + ((4 + 2 * j : Nat) : Int) = out + 4 + 2 * j by push_cast; ring] at hlow
  rw [show out + ((4 + 2 * j + 1 : Nat) : Int) = out + 4 + 2 * j + 1 by push_cast; ring] at hhigh
  exact ⟨hlow, hhigh⟩

/-- Each of the first `n` entries that is there has its cell in memory. -/
def CellsInside (xml : LibXml) (doc : xml.Doc) (layer : xml.Node) (mem : Mem) (out : Int) (n : Nat) : Prop :=
  ∀ csv, layerText xml doc layer = some csv → ∀ j < n, (csvEntry csv j).isSome → CellInMem mem out j

/-- `write_map` gives up on a layer of `n` entries: it has no csv data, or not enough of it. -/
def MapGivesUp (xml : LibXml) (doc : xml.Doc) (layer : xml.Node) (n : Nat) : Prop :=
  ¬ CsvData xml layer ∨ ∃ csv, layerText xml doc layer = some csv ∧ ∃ j < n, csvEntry csv j = none

/-- The three ways in which `write_map` finds the data of a layer. -/
theorem writeData_cases (xml : LibXml) (doc : xml.Doc) (layer : xml.Node) (count out : Int) (mem : Mem) :
    (¬ CsvData xml layer ∧ layerText xml doc layer = none ∧
        writeData xml doc layer count out mem = .ok (false, mem)) ∨
      (CsvData xml layer ∧ writeData xml doc layer count out mem
        = writeTiles count out count.toNat 0 (layerText xml doc layer) mem) := by
  unfold writeData layerText CsvData
  cases hdata : findNodeByName xml layer (cstr "data") with
  | none =>
      refine .inl ⟨?_, rfl, rfl⟩
      rintro ⟨data, hd, -⟩
      cases hd
  | some data =>
      dsimp only
      by_cases henc : xml.getProp data (cstr "encoding") = some (cstr "csv")
      · refine .inr ⟨⟨data, rfl, henc⟩, ?_⟩
        rw [if_pos henc]
        exact congrArg (writeTiles count out count.toNat 0 · mem) (if_pos henc).symm
      · refine .inl ⟨?_, if_neg henc, if_neg henc⟩
        rintro ⟨data', hd, he⟩
        cases hd
        exact henc he

theorem writeData_inBounds (count : Int) :
    InBounds (writeData xml doc layer count out mem) ↔ CellsInside xml doc layer mem out count.toNat := by
  unfold CellsInside
  rcases writeData_cases xml doc layer count out mem with ⟨-, htext, hrun⟩ | ⟨-, hrun⟩
  · rw [hrun, htext]
    refine iff_of_true (inBounds_ok _) ?_
    intro csv hcsv
    cases hcsv
  · rw [hrun]
    -- a negative product of the sizes leaves no iterations
    rcases Nat.eq_zero_or_pos count.toNat with hn | hn
    · rw [hn]
      exact iff_of_true (inBounds_ok _) (fun csv _ j hj => absurd hj (Nat.not_lt_zero j))
    · cases htext : layerText xml doc layer with
      | none =>
          obtain ⟨n, hn'⟩ := Nat.exists_eq_succ_of_ne_zero (Nat.ne_of_gt hn)
          rw [hn']
          refine iff_of_true inBounds_nullDeref ?_
          intro csv hcsv
          cases hcsv
      | some csv =>
          rw [(writeTiles_onlyOob (by omega) csv mem).inBounds_iff, writeTiles_total (by omega)]
          simp only [hn, forall_true_left, Option.some.injEq, exists_eq_left', Nat.zero_add, EntriesFit, forall_eq']

/-- What filling the cells in leaves in memory, and whether it gives up. -/
theorem writeData_mem {count : Int} {done : Bool} (h : writeData xml doc layer count out mem = .ok (done, mem')) :
    mem' = tilesMem (layerEntry xml doc layer) count.toNat (out + 4) mem ∧
      (done = false ↔ MapGivesUp xml doc layer count.toNat) := by
  unfold MapGivesUp
  have hentry : layerEntry xml doc layer = fun i => (layerText xml doc layer).bind (fun csv => csvEntry csv i) := rfl
  rcases writeData_cases xml doc layer count out mem with ⟨hcsv, htext, hrun⟩ | ⟨hcsv, hrun⟩
  · rw [hrun] at h
    cases h
    rw [hentry, htext]
    exact ⟨(tilesMem_none (fun j _ => rfl)).symm, iff_of_true rfl (.inl hcsv)⟩
  · rw [hrun] at h
    rcases Nat.eq_zero_or_pos count.toNat with hn | hn
    · rw [hn] at h ⊢
      cases h
      refine ⟨(tilesMem_none (fun j hj => absurd hj (Nat.not_lt_zero j))).symm, iff_of_false (by simp) ?_⟩
      rintro (hno | ⟨csv, -, j, hj, -⟩)
      · exact hno hcsv
      · exact absurd hj (Nat.not_lt_zero j)
    · cases htext : layerText xml doc layer with
      | none =>
          rw [htext] at h
          obtain ⟨n, hn'⟩ := Nat.exists_eq_succ_of_ne_zero (Nat.ne_of_gt hn)
          rw [hn'] at h
          cases h
      | some csv =>
          rw [htext] at h
          have hmem := writeTiles_mem (by omega) h
          obtain ⟨-, -, hcells, hshort⟩ := writeTiles_spec (by omega) h
          rw [hentry, htext]
          refine ⟨by simpa using hmem, ?_⟩
          constructor
          · intro hd
            obtain ⟨csv', hcsv', j, hj, hnone⟩ := hshort hd
            exact .inr ⟨csv', hcsv', j, hj, hnone⟩
          · rintro (hno | ⟨csv', hcsv', j, hj, hnone⟩)
            · exact absurd hcsv hno
            · cases hcsv'
              by_contra hd
              obtain ⟨csv'', e, hcsv'', he, -⟩ := hcells (by simpa using hd) j hj
              cases hcsv''
              rw [hnone] at he
              cases he

/-- A layer with a size is written inside memory where its header and its cells are. -/
theorem writeMap_inBounds {w h : Int} (hsize : layerSize xml layer = some (w, h)) :
    InBounds (writeMap xml doc layer (some out) mem) ↔
      HeaderInMem mem out ∧ CellsInside xml doc layer mem out (layerCells w h) := by
  rw [(writeMap_of_size hsize mem).2, ← header_total (u16 w) (u16 h), layerCells]
  have hcells {m₁ m₂ : Mem} (h₁ : setU16 mem out (u16 w) = .ok m₁) (h₂ : setU16 m₁ (out + 2) (u16 h) = .ok m₂)
      (n : Nat) : CellsInside xml doc layer m₂ out n ↔ CellsInside xml doc layer mem out n := by
    unfold CellsInside CellInMem
    simp only [Mem.store_dom (setU16_eq_ok.mp h₂), Mem.store_dom (setU16_eq_ok.mp h₁)]
  constructor
  · intro hin
    obtain ⟨hin₁, hin⟩ := inBounds_bind.mp hin
    obtain ⟨m₁, h₁⟩ := (onlyOob_setU16 _ _ _).inBounds_iff.mp hin₁
    obtain ⟨hin₂, hin⟩ := inBounds_bind.mp (hin m₁ h₁)
    obtain ⟨m₂, h₂⟩ := (onlyOob_setU16 _ _ _).inBounds_iff.mp hin₂
    obtain ⟨hin₃, -⟩ := inBounds_bind.mp (hin m₂ h₂)
    exact ⟨⟨m₁, m₂, h₁, h₂⟩, (hcells h₁ h₂ _).mp ((writeData_inBounds _).mp hin₃)⟩
  · rintro ⟨⟨m₁, m₂, h₁, h₂⟩, hin⟩
    rw [h₁, ok_bind, h₂, ok_bind]
    exact inBounds_bind.mpr ⟨(writeData_inBounds _).mpr ((hcells h₁ h₂ _).mpr hin), fun o _ => inBounds_ok _⟩

/-- What `write_map` leaves in memory, and when it gives up. -/
theorem writeMap_mem {w h ret : Int} (hsize : layerSize xml layer = some (w, h))
    (hrun : writeMap xml doc layer (some out) mem = .ok (ret, mem')) :
    mem' = mapMem xml doc layer w h out mem ∧ (ret = -1 ↔ MapGivesUp xml doc layer (layerCells w h)) := by
  obtain ⟨m₁, m₂, done, h₁, h₂, h₃, rfl⟩ := writeMap_steps hsize hrun
  obtain ⟨hm₃, hdone⟩ := writeData_mem h₃
  refine ⟨?_, ?_⟩
  · rw [hm₃, mapMem, setU16_overwrite h₂, setU16_overwrite h₁]
    rfl
  · rw [layerCells, ← hdone]
    cases done with
    | true => simpa using mapSize_ne w h
    | false => simp

/-- `tile_loader_gen_map` with the message of `write_map`: where it gives up, it prints the name at `&mem[fn]`. -/
def genMapShown (xml : LibXml) (fn : UInt32) (name layername : CStr) (out : Int) (mem : Mem) :
    Except Fault (Int × Mem) := do
  let (ret, mem) ← tileLoaderGenMap xml name layername (some out) mem
  if ret = -1 then
    let _ ← strAt mem fn.toNat
    return (ret, mem)
  else return (ret, mem)

/-- The layer that the loader takes is written in RAM, and where it gives up on it the name still ends. -/
def MapInside (xml : LibXml) (fn : UInt32) (name layername : CStr) (out : Int) (mem : Mem) : Prop :=
  ∀ doc root layer w h, xml.readFile name = some doc → xml.docGetRootElement doc = some root →
    findLayer xml layername (xml.children root) = .ok (some layer) → layerSize xml layer = some (w, h) →
    HeaderInMem mem out ∧ CellsInside xml doc layer mem out (layerCells w h) ∧
      (MapGivesUp xml doc layer (layerCells w h) → NameEnds (mapMem xml doc layer w h out mem) fn.toNat)

theorem findLayer_inBounds (xml : LibXml) (layername : CStr) (children : List xml.Node) :
    InBounds (findLayer xml layername children) := by
  induction children with
  | nil => exact inBounds_ok none
  | cons child rest ih =>
      rw [findLayer]
      by_cases hname : xml.name child = cstr "layer"
      · rw [if_pos hname]
        by_cases hany : layername = []
        · rw [if_pos hany]
          exact inBounds_ok _
        · rw [if_neg hany]
          cases hmn : xml.getProp child (cstr "name") with
          | none => exact inBounds_nullDeref
          | some mn =>
              dsimp only
              by_cases heq : mn = layername
              · rw [if_pos heq]
                exact inBounds_ok _
              · rw [if_neg heq]
                exact ih
      · rw [if_neg hname]
        exact ih

/-- Without a layer the loader looks at the file only. -/
theorem genMap_inBounds_of_none {name layername : CStr} (hno : ∀ doc layer, ¬ TakesLayer xml name layername doc layer)
    (out : Option Int) (mem : Mem) : InBounds (tileLoaderGenMap xml name layername out mem) := by
  unfold tileLoaderGenMap
  cases hdoc : xml.readFile name with
  | none => exact inBounds_ok _
  | some doc =>
  dsimp only
  cases hroot : xml.docGetRootElement doc with
  | none => exact inBounds_nullDeref
  | some root =>
  refine inBounds_bind.mpr ⟨findLayer_inBounds _ _ _, fun found hfind => ?_⟩
  cases found with
  | none => exact inBounds_ok _
  | some layer => exact absurd ⟨root, hdoc, hroot, hfind⟩ (hno doc layer)

theorem genMap_mem_of_none {name layername : CStr} (hno : ∀ doc layer, ¬ TakesLayer xml name layername doc layer)
    {out : Option Int} {ret : Int} (hgen : tileLoaderGenMap xml name layername out mem = .ok (ret, mem')) :
    mem' = mem := by
  rcases genMap_cases hgen with ⟨-, -, hmem⟩ | ⟨-, hmem⟩ | ⟨doc, root, layer, hdoc, hroot, hfind, -⟩
  · exact hmem
  · exact hmem
  · exact absurd ⟨root, hdoc, hroot, hfind⟩ (hno doc layer)

/-- The message of `write_map`, after a result that says that it has given up. -/
def showMessage (fn : UInt32) (o : Int × Mem) : Except Fault (Int × Mem) :=
  if o.1 = -1 then strAt o.2 fn.toNat >>= fun _ => .ok o else .ok o

theorem genMapShown_eq (xml : LibXml) (fn : UInt32) (name layername : CStr) (out : Int) (mem : Mem) :
    genMapShown xml fn name layername out mem
      = tileLoaderGenMap xml name layername (some out) mem >>= showMessage fn := rfl

/-- The message can be printed where the name ends. -/
theorem showMessage_inBounds {fn : UInt32} {ret : Int} (hdom : ∀ a, (mem' a).isSome = (r.mem a).isSome) :
    InBounds (showMessage fn (ret, mem')) ↔ (ret = -1 → NameEnds mem' fn.toNat) := by
  unfold showMessage
  by_cases hret : ret = -1
  · rw [if_pos hret, inBounds_bind]
    have hname := strAt_inBounds (r := r.ofDom mem' hdom) fn
    rw [show (r.ofDom mem' hdom).mem = mem' from rfl] at hname
    rw [hname]
    exact ⟨fun h _ => h.1, fun h => ⟨h hret, fun a _ => inBounds_ok _⟩⟩
  · rw [if_neg hret]
    exact iff_of_true (inBounds_ok _) (fun h => absurd h hret)

/-- What is asked of the layer that the loader takes, if it has a size. -/
def LayerInside (xml : LibXml) (fn : UInt32) (doc : xml.Doc) (layer : xml.Node) (out : Int) (mem : Mem) : Prop :=
  ∀ w h, layerSize xml layer = some (w, h) →
    HeaderInMem mem out ∧ CellsInside xml doc layer mem out (layerCells w h) ∧
      (MapGivesUp xml doc layer (layerCells w h) → NameEnds (mapMem xml doc layer w h out mem) fn.toNat)

theorem mapInside_iff {fn : UInt32} {name layername : CStr} :
    MapInside xml fn name layername out mem ↔
      ∀ doc layer, TakesLayer xml name layername doc layer → LayerInside xml fn doc layer out mem := by
  constructor
  · rintro hin doc layer ⟨root, hdoc, hroot, hfind⟩ w h hsize
    exact hin doc root layer w h hdoc hroot hfind hsize
  · intro hin doc root layer w h hdoc hroot hfind hsize
    exact hin doc layer ⟨root, hdoc, hroot, hfind⟩ w h hsize

/-- `write_map` and its message. -/
theorem writeMapShown_inBounds {fn : UInt32} (hname : NameEnds r.mem fn.toNat) :
    InBounds (writeMap xml doc layer (some out) r.mem >>= showMessage fn) ↔
      LayerInside xml fn doc layer out r.mem := by
  unfold LayerInside
  cases hsize : layerSize xml layer with
  | none =>
      rw [writeMap_of_none hsize, ok_bind]
      refine iff_of_true ((showMessage_inBounds (fun _ => rfl)).mpr (fun _ => hname)) ?_
      intro w h hs
      cases hs
  | some size =>
      obtain ⟨w, h⟩ := size
      have hmsg {ret : Int} {m : Mem} (hrun : writeMap xml doc layer (some out) r.mem = .ok (ret, m)) :
          InBounds (showMessage fn (ret, m)) ↔ (MapGivesUp xml doc layer (layerCells w h) →
            NameEnds (mapMem xml doc layer w h out r.mem) fn.toNat) := by
        obtain ⟨hm, hret⟩ := writeMap_mem hsize hrun
        rw [showMessage_inBounds (r := r) (writeMap_dom hrun), hret, hm]
      rw [inBounds_bind, writeMap_inBounds hsize]
      constructor
      · rintro ⟨⟨hheader, hcells⟩, hshow⟩ w' h' hs
        cases hs
        refine ⟨hheader, hcells, ?_⟩
        intro hup
        -- a layer that is given up on was written without a fault
        have hok : ∃ o, writeMap xml doc layer (some out) r.mem = .ok o := by
          refine (writeMap_total hsize).mpr ⟨hheader, fun hcsv _ => ?_⟩
          obtain hno | ⟨csv, hcsv', -⟩ := hup
          · exact absurd hcsv hno
          · exact ⟨csv, hcsv', hcells csv hcsv'⟩
        obtain ⟨⟨ret, m⟩, hrun⟩ := hok
        exact (hmsg hrun).mp (hshow (ret, m) hrun) hup
      · intro hin
        obtain ⟨hheader, hcells, hup⟩ := hin w h rfl
        refine ⟨⟨hheader, hcells⟩, ?_⟩
        rintro ⟨ret, m⟩ hrun
        exact (hmsg hrun).mpr hup

/-- **The loader stays inside exactly where the layer's map does.** -/
theorem genMapShown_inBounds {fn : UInt32} {name layername : CStr} (hname : NameEnds r.mem fn.toNat) :
    InBounds (genMapShown xml fn name layername out r.mem) ↔ MapInside xml fn name layername out r.mem := by
  rw [genMapShown_eq, mapInside_iff]
  by_cases htake : ∃ doc layer, TakesLayer xml name layername doc layer
  · obtain ⟨doc, layer, ht⟩ := htake
    rw [ht.genMap, writeMapShown_inBounds hname]
    constructor
    · intro hin doc' layer' ht'
      obtain ⟨rfl, rfl⟩ := ht.unique ht'
      exact hin
    · intro hin
      exact hin doc layer ht
  · have hno : ∀ doc layer, ¬ TakesLayer xml name layername doc layer := fun doc layer ht => htake ⟨doc, layer, ht⟩
    refine iff_of_true (inBounds_bind.mpr ⟨genMap_inBounds_of_none hno _ _, ?_⟩) ?_
    · rintro ⟨ret, m⟩ hgen
      cases genMap_mem_of_none hno hgen
      exact (showMessage_inBounds (fun _ => rfl)).mpr (fun _ => hname)
    · intro doc layer ht
      exact absurd ht (hno doc layer)

/-- The size query stores nothing and, having stored nothing, prints a name that is still there. -/
theorem genMap_size_inBounds (xml : LibXml) (name layername : CStr) (mem : Mem) :
    InBounds (tileLoaderGenMap xml name layername none mem) := by
  by_cases htake : ∃ doc layer, TakesLayer xml name layername doc layer
  · obtain ⟨doc, layer, ht⟩ := htake
    rw [ht.genMap]
    unfold writeMap
    cases xml.getProp layer (cstr "height") with
    | none => exact inBounds_ok _
    | some mh =>
    cases xml.getProp layer (cstr "width") with
    | none => exact inBounds_ok _
    | some mw => exact inBounds_ok _
  · exact genMap_inBounds_of_none (fun doc layer ht => htake ⟨doc, layer, ht⟩) _ _

/-! ## The device -/

/-- `cheat_write_fn` with the message of `write_map`. -/
def cheatWriteShown (host : Host) (p : PeriCheat) (mem : Mem) (offset val : UInt32) :
    Except Fault (PeriCheat × Mem) :=
  if offset = cheatTilemapReadAddrReg then do
    let name ← strAt mem p.filenameAddr.toNat
    let layername ← layernameAt host.xml name p mem
    let (_, mem) ← genMapShown host.xml p.filenameAddr name layername val.toNat mem
    return (p, mem)
  else cheatWriteFn host p mem offset val

variable {host : Host} {p : PeriCheat}

/-- The message changes nothing. -/
theorem cheatWriteShown_ok {p' : PeriCheat} {offset val : UInt32}
    (h : cheatWriteShown host p mem offset val = .ok (p', mem')) :
    cheatWriteFn host p mem offset val = .ok (p', mem') := by
  unfold cheatWriteShown at h
  by_cases hoff : offset = cheatTilemapReadAddrReg
  · subst hoff
    rw [if_pos rfl] at h
    obtain ⟨name, hname, h⟩ := bind_eq_ok.mp h
    obtain ⟨layername, hlayer, h⟩ := bind_eq_ok.mp h
    obtain ⟨⟨ret, m⟩, hgen, h⟩ := bind_eq_ok.mp h
    cases h
    obtain ⟨⟨ret', m'⟩, hrun, hgen⟩ := bind_eq_ok.mp hgen
    have hm : m' = mem' := by
      dsimp only at hgen
      by_cases hret : ret' = -1
      · rw [if_pos hret] at hgen
        obtain ⟨_, -, hgen⟩ := bind_eq_ok.mp hgen
        cases hgen
        rfl
      · rw [if_neg hret] at hgen
        cases hgen
        rfl
    unfold cheatWriteFn
    rw [if_neg (by decide), if_neg (by decide), if_neg (by decide), if_pos rfl, hname, ok_bind, hlayer, ok_bind,
      hrun, ← hm]
    rfl
  · rw [if_neg hoff] at h
    exact h

/-- The name of the layer ends, if it is looked at. -/
def LayernameInside (host : Host) (p : PeriCheat) (name : CStr) (mem : Mem) : Prop :=
  looksAtLayername host.xml name = true → NameEnds mem p.layerAddr.toNat

theorem layernameAt_inBounds {name : CStr} :
    InBounds (layernameAt host.xml name p r.mem) ↔ LayernameInside host p name r.mem := by
  unfold layernameAt LayernameInside
  by_cases hlooks : looksAtLayername host.xml name = true
  · rw [if_pos hlooks, strAt_inBounds]
    exact ⟨fun h _ => h, fun h => h hlooks⟩
  · rw [if_neg hlooks]
    exact iff_of_true (inBounds_ok _) (fun h => absurd h hlooks)

/-- What the command `offset` does with the file of that name, `val` being the address to load it to. -/
def CommandInside (host : Host) (p : PeriCheat) (mem : Mem) (offset val : UInt32) (name : CStr) : Prop :=
  (offset = cheatTilegfxReadAddrReg → TilesetInside host.gd name val.toNat) ∧
  (offset = cheatTilemapReadAddrReg → LayernameInside host p name mem ∧
    ∀ layername, layernameAt host.xml name p mem = .ok layername →
      MapInside host.xml p.filenameAddr name layername val.toNat mem) ∧
  (offset = cheatRawReadAddrReg → RawInside host name val.toNat)

/-- A write to the device stays in RAM: the name ends, and so does the file that it names. -/
def CheatWriteInside (host : Host) (p : PeriCheat) (mem : Mem) (offset val : UInt32) : Prop :=
  offset ∈ [cheatTilegfxReadAddrReg, cheatTilemapReadAddrReg, cheatRawReadAddrReg] →
    NameEnds mem p.filenameAddr.toNat ∧
      ∀ name, strAt mem p.filenameAddr.toNat = .ok name → CommandInside host p mem offset val name

/-- A read of the device stays in RAM: the names that it looks at end. -/
def CheatReadInside (host : Host) (p : PeriCheat) (mem : Mem) (offset : UInt32) : Prop :=
  offset ∈ [cheatTilegfxSizeReg, cheatTilemapSizeReg, cheatRawSizeReg] →
    NameEnds mem p.filenameAddr.toNat ∧
      ∀ name, strAt mem p.filenameAddr.toNat = .ok name → offset = cheatTilemapSizeReg →
        LayernameInside host p name mem

/-- A command reads the name, and then does its work on the file. -/
theorem command_inBounds {α : Type} {f : CStr → Except Fault α} {Q : CStr → Prop}
    (hf : ∀ name, NameEnds r.mem p.filenameAddr.toNat → (InBounds (f name) ↔ Q name)) :
    InBounds (strAt r.mem p.filenameAddr.toNat >>= f) ↔ NameEnds r.mem p.filenameAddr.toNat ∧
      ∀ name, strAt r.mem p.filenameAddr.toNat = .ok name → Q name := by
  rw [inBounds_bind, strAt_inBounds]
  constructor
  · rintro ⟨hends, h⟩
    exact ⟨hends, fun name hname => (hf name hends).mp (h name hname)⟩
  · rintro ⟨hends, h⟩
    exact ⟨hends, fun name hname => (hf name hends).mpr (h name hname)⟩

/-- **A write to the cheat device stays inside exactly where `CheatWriteInside` says so.** -/
theorem cheatWriteShown_inBounds {offset val : UInt32} :
    InBounds (cheatWriteShown host p r.mem offset val) ↔ CheatWriteInside host p r.mem offset val := by
  unfold CheatWriteInside CommandInside cheatWriteShown
  -- the three commands one by one, then the registers that store
  by_cases hmap : offset = cheatTilemapReadAddrReg
  · subst hmap
    rw [if_pos rfl]
    refine (command_inBounds (Q := fun name => LayernameInside host p name r.mem ∧
      ∀ layername, layernameAt host.xml name p r.mem = .ok layername →
        MapInside host.xml p.filenameAddr name layername val.toNat r.mem) ?_).trans ?_
    · intro name hends
      rw [inBounds_bind, layernameAt_inBounds]
      refine and_congr_right (fun _ => forall₂_congr (fun layername _ => ?_))
      rw [inBounds_bind, genMapShown_inBounds hends]
      exact ⟨fun h => h.1, fun h => ⟨h, fun a _ => inBounds_ok _⟩⟩
    · have h₁ : cheatTilemapReadAddrReg ≠ cheatTilegfxReadAddrReg := by decide
      have h₂ : cheatTilemapReadAddrReg ≠ cheatRawReadAddrReg := by decide
      simp [h₁, h₂]
  rw [if_neg hmap]
  unfold cheatWriteFn
  by_cases htiles : offset = cheatTilegfxReadAddrReg
  · subst htiles
    rw [if_neg (by decide), if_neg (by decide), if_pos rfl]
    refine (command_inBounds (Q := fun name => TilesetInside host.gd name val.toNat) ?_).trans ?_
    · intro name _
      rw [inBounds_bind, genTileset_inBounds]
      exact ⟨fun h => h.1, fun h => ⟨h, fun a _ => inBounds_ok _⟩⟩
    · have h₁ : cheatTilegfxReadAddrReg ≠ cheatTilemapReadAddrReg := by decide
      have h₂ : cheatTilegfxReadAddrReg ≠ cheatRawReadAddrReg := by decide
      simp [h₁, h₂]
  by_cases hraw : offset = cheatRawReadAddrReg
  · subst hraw
    rw [if_neg (by decide), if_neg (by decide), if_neg (by decide), if_neg (by decide), if_pos rfl]
    refine (command_inBounds (Q := fun name => RawInside host name val.toNat) ?_).trans ?_
    · intro name _
      rw [inBounds_bind, cheatLoadFile_inBounds]
      exact ⟨fun h => h.1, fun h => ⟨h, fun a _ => inBounds_ok _⟩⟩
    · have h₁ : cheatRawReadAddrReg ≠ cheatTilemapReadAddrReg := by decide
      have h₂ : cheatRawReadAddrReg ≠ cheatTilegfxReadAddrReg := by decide
      simp [h₁, h₂]
  refine iff_of_true ?_ (fun hmem => absurd hmem (by simp [hmap, htiles, hraw]))
  rw [if_neg htiles, if_neg hmap, if_neg hraw]
  split
  · exact inBounds_ok _
  · split
    · exact inBounds_ok _
    · exact inBounds_ok _

/-- **A read of the cheat device stays inside exactly where `CheatReadInside` says so.** -/
theorem cheatReadFn_inBounds {offset : UInt32} :
    InBounds (cheatReadFn host p r.mem offset) ↔ CheatReadInside host p r.mem offset := by
  unfold CheatReadInside cheatReadFn
  by_cases htiles : offset = cheatTilegfxSizeReg
  · subst htiles
    rw [if_neg (by decide), if_neg (by decide), if_pos rfl]
    refine (command_inBounds (Q := fun _ => True) ?_).trans ?_
    · intro name _
      obtain ⟨ret, hret⟩ := genTileset_size host.gd name r.mem
      rw [hret]
      exact iff_of_true (inBounds_ok _) trivial
    · have h₁ : cheatTilegfxSizeReg ≠ cheatTilemapSizeReg := by decide
      simp [h₁]
  by_cases hmap : offset = cheatTilemapSizeReg
  · subst hmap
    rw [if_neg (by decide), if_neg (by decide), if_neg (by decide), if_pos rfl]
    refine (command_inBounds (Q := fun name => LayernameInside host p name r.mem) ?_).trans ?_
    · intro name _
      rw [inBounds_bind, layernameAt_inBounds]
      refine ⟨fun h => h.1, fun h => ⟨h, fun layername _ => ?_⟩⟩
      exact inBounds_bind.mpr ⟨genMap_size_inBounds _ _ _ _, fun a _ => inBounds_ok _⟩
    · simp
  by_cases hraw : offset = cheatRawSizeReg
  · subst hraw
    rw [if_neg (by decide), if_neg (by decide), if_neg (by decide), if_neg (by decide), if_pos rfl]
    refine (command_inBounds (Q := fun _ => True) ?_).trans ?_
    · intro name _
      exact iff_of_true (inBounds_ok _) trivial
    · have h₁ : cheatRawSizeReg ≠ cheatTilemapSizeReg := by decide
      simp [h₁]
  refine iff_of_true ?_ (fun hmem => absurd hmem (by simp [hmap, htiles, hraw]))
  rw [if_neg htiles, if_neg hmap, if_neg hraw]
  split
  · exact inBounds_ok _
  · split
    · exact inBounds_ok _
    · exact inBounds_ok _

end HadBadge
