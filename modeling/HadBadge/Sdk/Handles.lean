import HadBadge.Sdk.Loader
import HadBadge.Sdk.ExtGfx

/-!
# `Sdk.Handles`: the commands that load and free

The loading and freeing handlers of `sdk/mybasic/ext_gfx.c`, with the arguments that they pop, and the table that
`mybasicext_gfx_install` sets up. `malloc` and `free` of the guest's C library are parameters.

## Contents
- **Arguments.** `MbValue`, `mbPopString`, `mbPopUsertype`.
- **Handlers.** `tilemapload`, `tilemapfree`, `tilegfxload`, `tilegfxfree`. `live` is a ghost: the blocks that the
  handlers have allocated and not freed.
- **Dispatch.** `mybasicextGfxInstall` and `mbCall`: a command runs the handler its name is registered with.
-/

namespace HadBadge

open Lib

/-! ## Arguments -/

/-- A value that a BASIC program passes. -/
inductive MbValue where
  | int (v : Int)
  | string (addr : UInt32)
  | usertype (ptr : UInt32)
  deriving DecidableEq, Repr

/-- `mb_pop_string`: the string and the arguments after it. -/
def mbPopString : List MbValue → Option (UInt32 × List MbValue)
  | .string addr :: args => some (addr, args)
  | _                    => none

/-- `mb_pop_usertype`. -/
def mbPopUsertype : List MbValue → Option (UInt32 × List MbValue)
  | .usertype ptr :: args => some (ptr, args)
  | _                     => none

/-- `mb_attempt_close_bracket`: no argument is left. -/
def mbCloseBracket : List MbValue → Option Unit
  | []     => some ()
  | _ :: _ => none

/-! ## Handlers -/

/-- `free`. -/
abbrev Free := Mem → UInt32 → Mem

/-- What the handlers work on. -/
structure HandleState where
  cheat : PeriCheat
  mem : Mem
  live : List UInt32

/-- The result of a handler: its return value, the value it pushes and the state it leaves. -/
structure MbResult where
  ret : MbFunc
  pushed : Option MbValue
  state : HandleState

/-- The host, the guest's C library and what the handlers of other modules do. -/
structure GuestEnv where
  host : Host
  malloc : Malloc
  free : Free
  other : List MbValue → HandleState → Except Fault MbResult

/-- A handler that stops before it does anything. -/
def mbFail (s : HandleState) : Except Fault MbResult := .ok ⟨.err, none, s⟩

/-- What the two loading handlers do with the pointer that the loader returns. -/
def pushLoaded (s : HandleState) (o : Loaded) : MbResult where
  ret := if o.ret = 0 then .err else .ok
  pushed := some (.usertype o.ret)
  state := ⟨o.cheat, o.mem, if o.ret = 0 then s.live else o.ret :: s.live⟩

/-- `_tilemapload`. -/
def tilemapload (env : GuestEnv) (s : HandleState) (args : List MbValue) : Except Fault MbResult :=
  match mbPopString args with
  | none => mbFail s
  | some (filename, args) =>
  match mbPopString args with
  | none => mbFail s
  | some (layername, args) =>
  match mbCloseBracket args with
  | none => mbFail s
  | some () => do
      let o ← loadTilemap env.host env.malloc s.cheat s.mem filename layername
      return pushLoaded s o

/-- `_tilegfxload`. -/
def tilegfxload (env : GuestEnv) (s : HandleState) (args : List MbValue) : Except Fault MbResult :=
  match mbPopString args with
  | none => mbFail s
  | some (filename, args) =>
  match mbCloseBracket args with
  | none => mbFail s
  | some () => do
      let o ← loadTilegfx env.host env.malloc s.cheat s.mem filename
      return pushLoaded s o

/-- What the two freeing handlers share. -/
def freePopped (env : GuestEnv) (s : HandleState) (args : List MbValue) : Except Fault MbResult :=
  match mbPopUsertype args with
  | none => mbFail s
  | some (tm, args) =>
  match mbCloseBracket args with
  | none => mbFail s
  | some () => .ok ⟨.ok, none, { s with mem := env.free s.mem tm, live := s.live.erase tm }⟩

/-- `_tilemapfree`. -/
def tilemapfree : GuestEnv → HandleState → List MbValue → Except Fault MbResult := freePopped

/-- `_tilegfxfree`. -/
def tilegfxfree : GuestEnv → HandleState → List MbValue → Except Fault MbResult := freePopped

/-! ## Dispatch -/

/-- The names that `mybasicext_gfx_install` registers. -/
inductive GfxName where
  | TILEMAPLOAD | TILEMAPFREE | TILEGFXLOAD | TILEGFXFREE | BGNDINIT | BGNDSCROLL | WAITVBL | SPRINIT | SPRSETTILE
  | SPRSETX | SPRSETY | TILEMAPAT | TILEMAPSET
  deriving DecidableEq, Repr

/-- The handlers of `ext_gfx.c`. -/
inductive GfxHandler where
  | tilemapload | tilemapfree | tilegfxload | tilegfxfree | bgndinit | bgndscroll | waitvbl | sprinit | sprsettile
  | sprsetx | sprsety | tilemapat | tilemapset
  deriving DecidableEq, Repr

/-- The names registered so far. -/
abbrev FuncDict := List (GfxName × GfxHandler)

/-- `mb_register_func`: a name that is there already keeps its handler. -/
def mbRegisterFunc (dict : FuncDict) (n : GfxName) (f : GfxHandler) : FuncDict :=
  if (dict.lookup n).isSome then dict else dict ++ [(n, f)]

/-- `mybasicext_gfx_install`. -/
def mybasicextGfxInstall (dict : FuncDict) : FuncDict :=
  let dict := mbRegisterFunc dict .TILEMAPLOAD .tilemapload
  let dict := mbRegisterFunc dict .TILEMAPFREE .tilemapload
  let dict := mbRegisterFunc dict .TILEGFXLOAD .tilegfxload
  let dict := mbRegisterFunc dict .TILEGFXFREE .tilegfxload
  let dict := mbRegisterFunc dict .BGNDINIT .bgndinit
  let dict := mbRegisterFunc dict .BGNDSCROLL .bgndscroll
  let dict := mbRegisterFunc dict .WAITVBL .waitvbl
  let dict := mbRegisterFunc dict .SPRINIT .sprinit
  let dict := mbRegisterFunc dict .SPRSETTILE .sprsettile
  let dict := mbRegisterFunc dict .SPRSETX .sprsetx
  let dict := mbRegisterFunc dict .SPRSETY .sprsety
  let dict := mbRegisterFunc dict .TILEMAPAT .tilemapat
  mbRegisterFunc dict .TILEMAPSET .tilemapset

/-- A handler on its arguments. Only those that load and free are defined here. -/
def GfxHandler.run (env : GuestEnv) (s : HandleState) (args : List MbValue) : GfxHandler → Except Fault MbResult
  | .tilemapload => HadBadge.tilemapload env s args
  | .tilemapfree => HadBadge.tilemapfree env s args
  | .tilegfxload => HadBadge.tilegfxload env s args
  | .tilegfxfree => HadBadge.tilegfxfree env s args
  | _            => env.other args s

/-- A command by its name. -/
def mbCall (env : GuestEnv) (dict : FuncDict) (n : GfxName) (args : List MbValue) (s : HandleState) :
    Except Fault MbResult :=
  match dict.lookup n with
  | none   => mbFail s
  | some f => f.run env s args

end HadBadge
