import TetherDesk.Host.Screen
import TetherDesk.Net.Http

namespace TetherDesk.Host

-- The operating system as the host uses it; σ is everything behind these calls.
structure ScreenCapturer (σ : Type) where
  displays : σ → List DisplayInfo × σ
  -- some is the return value false and the error text
  start : σ → Int → Nat → Option Bytes × σ
  latest : σ → Option Frame × σ
  currentDisplay : σ → Int
  supportsHighResolution : σ → Bool
  highResolution : σ → Bool
  setHighResolution : σ → Bool → σ

structure InputInjector (σ : Type) where
  pointer : σ → (x y : Int) → UInt8 → (wheelX wheelY : Int) → σ
  key : σ → (hid : Nat) → (down : Bool) → σ
  releaseAll : σ → σ

structure Clipboard (σ : Type) where
  changeCount : σ → Nat × σ
  getText : σ → Option Bytes × σ
  setText : σ → Bytes → σ

-- stat, mkdir, stdio and remove; streams are numbers.
structure Files (σ : Type) where
  fileExists : σ → Bytes → Bool
  makeDirs : σ → Bytes → σ
  readFile : σ → Bytes → Net.FileRead
  fopen : σ → Bytes → Option Nat × σ
  fwrite : σ → Nat → Bytes → Nat × σ
  fclose : σ → Nat → σ
  remove : σ → Bytes → σ

structure Platform (σ : Type) where
  capturer : ScreenCapturer σ
  input : InputInjector σ
  clipboard : Clipboard σ
  files : Files σ
  osName : Bytes

end TetherDesk.Host
