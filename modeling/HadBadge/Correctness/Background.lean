import HadBadge.Emu.Tiles

/-!
# `Correctness.Background`: the picture of a background line

A background is a torus of `8w × 8h` pixels, made of the tiles its map names. Rendering a line of it shows
the 320 texels from the scroll position on. The renderer is run twice here: on all of RAM, and on a memory
that has the cells of the map and the tiles they name and no other byte (`PeriGfxBgnd.Reads`). Both runs
give the same line, so no other byte is read.
-/

namespace HadBadge

open Lib

variable {r : Ram} {b : PeriGfxBgnd} {mem : Mem} {ypos : Int}

/-- The address of cell `k` of the map. -/
def PeriGfxBgnd.cellAddr (b : PeriGfxBgnd) (k : Nat) : Int := b.mapAddr.toNat + 2 * (k : Int)

/-- The bytes of the map and of the tiles it names. -/
def PeriGfxBgnd.Reads (b : PeriGfxBgnd) (mem : Mem) (i : Int) : Prop :=
  (b.cellAddr 0 ≤ i ∧ i < b.cellAddr (b.width.toNat * b.height.toNat)) ∨
  ∃ k < b.width.toNat * b.height.toNat, ∃ t ∈ mem.load (b.cellAddr k) 2,
    (b.gfxAddr.toNat + 64 * t : Int) ≤ i ∧ i < b.gfxAddr.toNat + 64 * t + 64

instance (b : PeriGfxBgnd) (mem : Mem) : DecidablePred (b.Reads mem) := fun i => by
  unfold PeriGfxBgnd.Reads; infer_instance

/-- The map and all tiles it names lie in RAM. -/
structure PeriGfxBgnd.InRam (b : PeriGfxBgnd) (r : Ram) : Prop where
  map : b.cellAddr (b.width.toNat * b.height.toNat) ≤ machRamSize
  tiles : ∀ k < b.width.toNat * b.height.toNat, ∀ t, u16At r.mem (b.cellAddr k) = .ok t →
    b.gfxAddr.toNat + 64 * t + 64 ≤ machRamSize

/-- What a background shows at `(x, y)` of its torus: the tile number there and the texel. -/
def PeriGfxBgnd.TexelAt (b : PeriGfxBgnd) (mem : Mem) (x y t : Nat) (c : UInt8) : Prop :=
  u16At mem (b.cellAddr (y / 8 * b.width.toNat + x / 8)) = .ok t ∧
  u8At mem (b.gfxAddr.toNat + 64 * t + (y % 8 * 8 + x % 8)) = .ok c

/-- More bytes do not change a fetch that succeeds. -/
theorem tileFetch_mono {m m' : Mem} (hs : m.Sub m') {y x : Int} {f : TileFetch}
    (h : tileFetch b m y x = .ok f) : tileFetch b m' y x = .ok f := by
  simp only [tileFetch, bind_eq_ok] at h ⊢
  obtain ⟨t, ht, col, hcol, hf⟩ := h
  exact ⟨t, u16At_mono hs ht, col, u8At_eq_ok.mpr (hs _ _ (u8At_eq_ok.mp hcol)), hf⟩

/-- Every position of the torus has a tile number and a texel, both within the bytes that the map owns. -/
theorem PeriGfxBgnd.InRam.texel (hram : b.InRam r) {x y : Nat} (hx : x < 8 * b.width.toNat)
    (hy : y < 8 * b.height.toNat) : ∃ t c, b.TexelAt (r.mem.restrict (b.Reads r.mem)) x y t c := by
  have hcell : y / 8 * b.width.toNat + x / 8 < b.width.toNat * b.height.toNat :=
    cellIdx_lt (by omega) (by omega)
  generalize hk : y / 8 * b.width.toNat + x / 8 = k at hcell
  have hmap := hram.map
  simp only [PeriGfxBgnd.cellAddr] at hmap
  -- the two bytes of the cell are in the map
  have hread : ∀ j < 2, b.Reads r.mem (b.cellAddr k + (j : Nat)) := by
    intro j hj
    left
    simp only [PeriGfxBgnd.cellAddr]
    omega
  obtain ⟨t, ht⟩ := r.load_of_range (i := b.cellAddr k) (n := 2)
    (by simp only [PeriGfxBgnd.cellAddr]; omega) (by simp only [PeriGfxBgnd.cellAddr]; omega)
  -- the texel is in the tile that the cell names
  have htile := hram.tiles k hcell t (u16At_eq_ok.mpr ht)
  have htexel : b.Reads r.mem (b.gfxAddr.toNat + 64 * t + (y % 8 * 8 + x % 8)) := by
    right
    exact ⟨k, hcell, t, ht, by omega, by omega⟩
  obtain ⟨c, hc⟩ := Option.isSome_iff_exists.mp (r.isSome_of_range
    (i := b.gfxAddr.toNat + 64 * t + (y % 8 * 8 + x % 8)) (by omega) (by omega))
  refine ⟨t, c, ?_, ?_⟩
  · rw [hk, u16At_eq_ok, Mem.load_restrict hread]
    exact ht
  · rw [u8At_eq_ok, Mem.restrict_of htexel]
    exact hc

/-- The fetch for a position of the torus, where nothing wraps. -/
theorem PeriGfxBgnd.InRam.fetch (hram : b.InRam r) (hmem : mem.Sub r.mem) {x y t : Nat} {c : UInt8}
    (hx : x < 8 * b.width.toNat) (hy : y < 8 * b.height.toNat) (ht : b.TexelAt mem x y t c) :
    ∃ f, tileFetch b mem y x = .ok f ∧ f.col = c := by
  have hcell : b.cellAt x y < b.width.toNat * b.height.toNat := cellIdx_lt (by omega) (by omega)
  have hmap := hram.map
  simp only [PeriGfxBgnd.cellAddr, machRamSize] at hmap
  have hw : b.width.toNat ≤ b.width.toNat * b.height.toNat := Nat.le_mul_of_pos_right _ (by omega)
  have hh : b.height.toNat ≤ b.width.toNat * b.height.toNat := Nat.le_mul_of_pos_left _ (by omega)
  have htile := hram.tiles _ hcell t (u16At_mono hmem ht.1)
  simp only [machRamSize] at htile
  -- an index of a map in RAM is an `int`, the address of a tile in RAM a `uint32_t`
  have hidx : i32 (b.cellAt x y) = b.cellAt x y := i32_of_range (by omega) (by omega)
  have haddr : b.texelAddr x y t = b.gfxAddr.toNat + 64 * t + (y % 8 * 8 + x % 8) := by
    unfold PeriGfxBgnd.texelAddr
    rw [u32_of_range (by omega) (by omega)]
    push_cast
    rfl
  have htno : u16At mem (b.mapAddr.toNat + 2 * (b.cellAt x y : Int)) = .ok t := ht.1
  refine ⟨b.cellFetch x y t c, ?_, rfl⟩
  rw [tileFetch_pos b mem (by omega) (by omega), hidx, htno, ok_bind, haddr, ht.2, ok_bind]

/-- The layer of an active background at a pixel whose texel can be fetched. -/
theorem bgndLayer_of_fetch (ha : b.Active) {i : Fin 320} {f : TileFetch}
    (hf : tileFetch b mem (bgndY b ypos) (bgndX b i) = .ok f) :
    bgndLayer b mem ypos i = opaqueUnless b.transcol f.col := by
  simp only [bgndLayer, ha, if_true, texelLayer, hf]

/-- Painting one texel. -/
theorem paint_opaqueUnless {l : Layer (Fin 320) UInt8} {i : Fin 320} {transcol : UInt32} {c : UInt8}
    (h : l i = opaqueUnless transcol c) (s : Scanline) :
    l.paint s i = if c.toNat ≠ transcol.toNat then c else s i := by
  simp only [Layer.paint, h, opaqueUnless]
  by_cases hc : c.toNat ≠ transcol.toNat
  · rw [if_pos hc, if_pos hc, Option.getD_some]
  · rw [if_neg hc, if_neg hc, Option.getD_none]

/-- **A background line is 320 texels of its torus.** For every background with both addresses set, a size of
    16 bits, map and tiles in RAM and a vertical scroll position that leaves room for the line number: the
    renderer ends, pixel `i` is the texel at `(scrollx + i, scrolly + ypos)` of the torus unless that is
    transparent, and the same run succeeds on the bytes of the map and its tiles alone. -/
theorem bgnd_reference (r : Ram) (b : PeriGfxBgnd) (hmap : b.mapAddr ≠ 0) (hgfx : b.gfxAddr ≠ 0)
    (hw : 1 ≤ b.width.toNat) (hw' : b.width.toNat ≤ 65535) (hh : 1 ≤ b.height.toNat)
    (hh' : b.height.toNat ≤ 65535) (hram : b.InRam r) (hsy : b.scrolly.toNat < 2147483648 - 240)
    (s : Scanline) {ypos : Int} (h0 : 0 ≤ ypos) (h1 : ypos < 240) {fuel : Nat} (hfuel : 4294967296 ≤ fuel) :
    ∃ out fetched,
      gfxRenderBgndScanline fuel s ypos b (r.mem.restrict (b.Reads r.mem)) = .ok (out, fetched) ∧
      gfxRenderBgndScanline fuel s ypos b r.mem = .ok (out, fetched) ∧
      ∀ i : Fin 320, ∃ t c,
        b.TexelAt r.mem ((b.scrollx.toNat + i) % (8 * b.width.toNat))
          ((b.scrolly.toNat + ypos.toNat) % (8 * b.height.toNat)) t c ∧
        out i = if c.toNat ≠ b.transcol.toNat then c else s i := by
  have hne {v : UInt32} (hv : 1 ≤ v.toNat) : v ≠ 0 := by
    rintro rfl
    exact absurd hv (by decide)
  have hact : b.Active := ⟨hgfx, hmap, hne hh, hne hw⟩
  -- the line is a row of the torus: the sum of the source is an `int`
  have hrow : torusY b ypos = (b.scrolly.toNat + ypos.toNat) % (8 * b.height.toNat) := by
    unfold torusY
    rw [show ypos + (b.scrolly.toNat : Int) = ((b.scrolly.toNat + ypos.toNat : Nat) : Int) by omega, u32_natCast,
      Nat.mod_eq_of_lt (by omega : b.scrolly.toNat + ypos.toNat < 4294967296)]
  have hY := torusY_lt (b := b) (by omega) ypos
  -- texel by texel, on the bytes of the map and its tiles
  have hfetch : ∀ i : Nat, ∃ f t c, b.TexelAt (r.mem.restrict (b.Reads r.mem)) (torusX b i) (torusY b ypos) t c ∧
      tileFetch b (r.mem.restrict (b.Reads r.mem)) (bgndY b ypos) (bgndX b i) = .ok f ∧ f.col = c := by
    intro i
    have hX := torusX_lt (b := b) (by omega) i
    obtain ⟨t, c, ht⟩ := hram.texel hX hY
    obtain ⟨f, hf, hcol⟩ := hram.fetch Mem.restrict_sub hX hY ht
    rw [bgndX_eq (by omega) (by omega), bgndY_eq (by omega) (by omega)]
    exact ⟨f, t, c, ht, hf, hcol⟩
  choose f t c htexel hf hcol using hfetch
  have hfull (i : Nat) : tileFetch b r.mem (bgndY b ypos) (bgndX b i) = .ok (f i) :=
    tileFetch_mono Mem.restrict_sub (hf i)
  have hsize {v : UInt32} (hv : 1 ≤ v.toNat) (hv' : v.toNat ≤ 65535) : 0 < timesEight v := by
    rw [timesEight_eq (by omega)]
    omega
  have hlayer : (bgndLayer b (r.mem.restrict (b.Reads r.mem)) ypos) = bgndLayer b r.mem ypos := by
    funext i
    rw [bgndLayer_of_fetch hact (hf i), bgndLayer_of_fetch hact (hfull i)]
  refine ⟨(bgndLayer b r.mem ypos).paint s, (List.range 320).map f, ?_, ?_, ?_⟩
  · rw [← hlayer]
    exact bgnd_total hact (hsize hh hh') (hsize hw hw') hfuel (fun i _ => hf i) s
  · exact bgnd_total hact (hsize hh hh') (hsize hw hw') hfuel (fun i _ => hfull i) s
  · intro i
    refine ⟨t i, c i, ?_, ?_⟩
    · rw [← hrow]
      exact ⟨u16At_mono Mem.restrict_sub (htexel i).1,
        u8At_eq_ok.mpr (Mem.restrict_sub _ _ (u8At_eq_ok.mp (htexel i).2))⟩
    · rw [paint_opaqueUnless (bgndLayer_of_fetch hact (hfull i)), hcol]

/-- A map of `2 × 2` cells, with tile 1 in the second and the third of them, and two texels of that tile. -/
def fourCellRam : Ram :=
  ((((Ram.fill 0).setByte 0x1002 1).setByte 0x1004 1).setByte 0x2050 6).setByte 0x2053 7

/-- The background that shows it, scrolled, with colour 0 transparent. -/
def fourCellBgnd : PeriGfxBgnd := ⟨0x1000, 0x2000, 2, 2, 5, 7, 0⟩

theorem fourCellBgnd_inRam : fourCellBgnd.InRam fourCellRam := by
  refine ⟨by decide, ?_⟩
  intro k _ t ht
  have hlt := u16At_lt ht
  have hgfx : fourCellBgnd.gfxAddr.toNat = 8192 := rfl
  rw [hgfx]
  simp only [machRamSize]
  omega

/-- Line 3 of that background: pixels 11 and 14 show the two texels, pixel 0 what was there before. -/
theorem bgnd_reference_fourCell :
    ∃ out fetched,
      gfxRenderBgndScanline 4294967296 (fun _ => 9) 3 fourCellBgnd
        (fourCellRam.mem.restrict (fourCellBgnd.Reads fourCellRam.mem)) = .ok (out, fetched) ∧
      gfxRenderBgndScanline 4294967296 (fun _ => 9) 3 fourCellBgnd fourCellRam.mem = .ok (out, fetched) ∧
      (∀ i : Fin 320, ∃ t c,
        fourCellBgnd.TexelAt fourCellRam.mem ((fourCellBgnd.scrollx.toNat + i) % (8 * fourCellBgnd.width.toNat))
          ((fourCellBgnd.scrolly.toNat + (3 : Int).toNat) % (8 * fourCellBgnd.height.toNat)) t c ∧
        out i = if c.toNat ≠ fourCellBgnd.transcol.toNat then c else 9) ∧
      out 11 = 6 ∧ out 14 = 7 ∧ out 0 = 9 := by
  have hshown : (gfxRenderBgndScanline 4294967296 (fun _ => 9) 3 fourCellBgnd fourCellRam.mem).map
      (fun o => (o.1 11, o.1 14, o.1 0)) = .ok (6, 7, 9) := by
    decide +kernel
  obtain ⟨out, fetched, hreads, hrun, hpixels⟩ := bgnd_reference fourCellRam fourCellBgnd (by decide) (by decide)
    (by decide) (by decide) (by decide) (by decide) fourCellBgnd_inRam (by decide) (fun _ => 9)
    (by decide : (0 : Int) ≤ 3) (by decide) (le_refl _)
  refine ⟨out, fetched, hreads, hrun, hpixels, ?_⟩
  rw [hrun] at hshown
  simpa using Except.ok.inj hshown

end HadBadge
