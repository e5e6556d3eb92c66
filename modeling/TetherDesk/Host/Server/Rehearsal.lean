import TetherDesk.Host.Server.Runs
import TetherDesk.Secure.Rehearsal

namespace TetherDesk.Host

open TetherDesk.Net TetherDesk.Secure

-- What the primitives give in the handshake of the desk, whose keys never change.
def deskPoint : Bytes :=
  [206, 141, 58, 209, 204, 182, 51, 236, 123, 112, 193, 120, 20, 165, 199, 110, 205, 2, 150, 133, 5, 13, 52,
    71, 69, 186, 5, 135, 14, 88, 125, 89]

def deskStatic : Bytes :=
  [164, 224, 146, 146, 182, 81, 194, 120, 185, 119, 44, 86, 159, 95, 169, 187, 19, 217, 6, 180, 106, 182,
    140, 157, 249, 220, 43, 68, 9, 248, 162, 9]

def deskPrk : Bytes :=
  [203, 213, 81, 99, 182, 77, 52, 222, 205, 228, 76, 32, 78, 64, 25, 33, 15, 187, 157, 34, 185, 141, 23, 91,
    221, 245, 180, 91, 179, 229, 214, 232]

def deskMac : Bytes :=
  [182, 164, 111, 200, 193, 188, 162, 55, 158, 179, 246, 139, 94, 34, 198, 144, 205, 241, 8, 22, 148, 18,
    179, 41, 230, 244, 118, 219, 2, 240, 28, 35]

def sealedMac : Bytes :=
  [138, 156, 102, 52, 115, 215, 91, 119, 233, 69, 251, 186, 121, 4, 185, 212, 128, 172, 135, 170, 96, 33, 46,
    245, 122, 165, 168, 23, 43, 134, 252, 99, 228]

def deskPoints : List ((Bytes × Bytes) × Bytes) :=
  [((List.replicate 32 2, basePoint), deskPoint), ((List.replicate 32 1, basePoint), deskStatic)]

def deskHashes : List (Bytes × Bytes) :=
  (ascii "TetherDesk v2" ++ basePoint ++ basePoint ++ deskPoint ++ List.replicate 16 2, deskTranscript) ::
    hmacHashes deskTranscript (deskPoint ++ deskStatic)
      [0, 151, 241, 59, 127, 82, 197, 10, 170, 100, 235, 108, 209, 46, 117, 11, 244, 154, 61, 24, 234, 21, 3,
        175, 111, 189, 176, 2, 170, 232, 113, 186] deskPrk ++
    hmacHashes deskPrk (ascii "tetherdesk keys" ++ [1])
      [234, 246, 6, 248, 139, 194, 26, 224, 77, 49, 63, 78, 4, 134, 188, 135, 71, 90, 227, 109, 6, 7, 154,
        52, 254, 241, 8, 101, 252, 255, 253, 34] deskKey ++
    hmacHashes (ascii "secret1") (ascii "tetherdesk-auth" ++ deskTranscript)
      [185, 219, 44, 169, 149, 16, 51, 128, 218, 10, 8, 173, 28, 111, 247, 61, 191, 184, 73, 243, 7, 26, 48,
        244, 47, 25, 217, 37, 159, 98, 93, 4] deskMac

def deskStreams : List ((Bytes × Bytes × Bytes × Nat) × Bytes) :=
  [((putU8 RD_C_AUTH ++ deskMac, deskKey, ctrNonce 0, 1), sealedMac),
    ((sealedMac, deskKey, ctrNonce 0, 1), putU8 RD_C_AUTH ++ deskMac)]

def deskTags : List ((Bytes × Bytes × Bytes × Bytes) × Bytes) :=
  [((sealedMac, [], deskKey, ctrNonce 0), [251, 60, 215, 226, 146, 81, 217, 192, 101, 223, 49, 151, 161,
    108, 252, 36])]

def rehearsed : Crypto where
  rdSha1 := reference.rdSha1
  rdSha256 := memo deskHashes reference.rdSha256
  x25519 := fun scalar point => memo deskPoints (fun p => reference.x25519 p.1 p.2) (scalar, point)
  rdChacha20 := fun input key nonce counter =>
    memo deskStreams (fun p => reference.rdChacha20 p.1 p.2.1 p.2.2.1 p.2.2.2) (input, key, nonce, counter)
  aeadTag := fun ct ad key nonce => memo deskTags (fun p => reference.aeadTag p.1 p.2.1 p.2.2.1 p.2.2.2) (ct,
    ad, key, nonce)

theorem rehearsed_eq : rehearsed = reference := by
  have hhashes : ∀ p ∈ deskHashes, reference.rdSha256 p.1 = p.2 := by decide +kernel
  have hpoints : ∀ p ∈ deskPoints, reference.x25519 p.1.1 p.1.2 = p.2 := by decide +kernel
  have hstreams : ∀ p ∈ deskStreams, reference.rdChacha20 p.1.1 p.1.2.1 p.1.2.2.1 p.1.2.2.2 =
      p.2 := by decide +kernel
  have htags : ∀ p ∈ deskTags, reference.aeadTag p.1.1 p.1.2.1 p.1.2.2.1 p.1.2.2.2 = p.2 := by decide +kernel
  unfold rehearsed
  rw [memo_eq hhashes, memo_eq hpoints, memo_eq hstreams, memo_eq htags]

end TetherDesk.Host
