import TetherDesk.Bytes

namespace TetherDesk

def RD_PROTO_VERSION : Nat := 2
def RD_NONCE_LEN : Nat := 16
def RD_MAC_LEN : Nat := 32
def RD_TAG_LEN : Nat := 16

def RD_MAX_CLIENT_MSG : Nat := 2 * 1024 * 1024
def RD_MAX_SERVER_MSG : Nat := 256 * 1024 * 1024
def RD_MAX_CLIPBOARD : Nat := 1 * 1024 * 1024
def RD_FILE_CHUNK : Nat := 64 * 1024
def RD_MAX_FILE_SIZE : Nat := 4 * 1024 * 1024 * 1024

-- viewer -> host
def RD_C_HELLO : Nat := 1
def RD_C_AUTH : Nat := 2
def RD_C_FRAME_ACK : Nat := 3
def RD_C_POINTER : Nat := 4
def RD_C_KEY : Nat := 5
def RD_C_CLIPBOARD : Nat := 6
def RD_C_SETTINGS : Nat := 7
def RD_C_CHAT : Nat := 8
def RD_C_PING : Nat := 9
def RD_C_FILE_BEGIN : Nat := 10
def RD_C_FILE_CHUNK : Nat := 11
def RD_C_FILE_END : Nat := 12
def RD_C_REFRESH : Nat := 13

-- host -> viewer
def RD_S_HELLO : Nat := 64
def RD_S_AUTH_RESULT : Nat := 65
def RD_S_DISPLAY_INFO : Nat := 66
def RD_S_FRAME : Nat := 67
def RD_S_CLIPBOARD : Nat := 68
def RD_S_CHAT : Nat := 69
def RD_S_PONG : Nat := 70
def RD_S_VIEWERS : Nat := 71
def RD_S_NOTICE : Nat := 72
def RD_S_FILE_RESULT : Nat := 73

def RD_AUTH_X25519_CHACHA : Nat := 2
def RD_FRAME_FULL : Nat := 1
def RD_HID_MAX : Nat := 256

end TetherDesk
