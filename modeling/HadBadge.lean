import HadBadge.Lib.CInt
import HadBadge.Lib.Bits
import HadBadge.Lib.Bytes
import HadBadge.Lib.Paint
import HadBadge.MachDefines
import HadBadge.Emu.PeriGfx
import HadBadge.Emu.Render
import HadBadge.Emu.RiscvCpu
import HadBadge.Emu.Tiles
import HadBadge.Sdk.ExtGfx
import HadBadge.Sdk.Loader
import HadBadge.Correctness.Coverage
import HadBadge.Correctness.Configure
import HadBadge.Correctness.CpuMemory
import HadBadge.Correctness.FirstPage
import HadBadge.Correctness.Holes
import HadBadge.Correctness.Inside
import HadBadge.Correctness.LoadMap
import HadBadge.Correctness.Scroll
import HadBadge.Correctness.Tileset
import HadBadge.Correctness.Uart
import HadBadge.Correctness.Vbl
import HadBadge.Correctness.Background
import HadBadge.Correctness.Framebuffer
import HadBadge.Correctness.Sprites
import HadBadge.Sdk.Handles
import HadBadge.Correctness.Commands
import HadBadge.Correctness.SpriteList
import HadBadge.Correctness.Handles
import HadBadge.Correctness.Program
import HadBadge.Correctness.Slice
import HadBadge.Correctness.TilemapStore
import HadBadge.Correctness.Registers
import HadBadge.Correctness.WrapLoops
import HadBadge.Correctness.SpriteLimit
import HadBadge.Emu.SdlGlue
import HadBadge.Correctness.Buttons
import HadBadge.Sdk.IntLiteral
import HadBadge.Correctness.IntLiteral
import HadBadge.Correctness.Csv
import HadBadge.Correctness.MapSize
import HadBadge.Correctness.Callbacks
import HadBadge.Correctness.Privilege
import HadBadge.Correctness.SoftFloat
import HadBadge.Correctness.TlbSound
import HadBadge.Correctness.UserMemory
