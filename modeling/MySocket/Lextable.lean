import MySocket.Base64
import MySocket.Minilex

/-!
# The table of the header names

The names in `lextable-strings.h`, the first of them the methods, and the table in `lextable.h`.

* `minilex_headerNames` : the table is what `minilex.c` makes of the names.
* `lexFrom_lextable` : it recognizes exactly the names, whatever the case of their letters.
-/

namespace MySocket

namespace Lws

/-- `set` in `lextable-strings.h` -/
def headerNames : List (List UInt8) :=
  ["get ", "post ", "options ", "host:", "connection:", "upgrade:", "origin:",
    "sec-websocket-draft:", "\r\n", "sec-websocket-extensions:", "sec-websocket-key1:",
    "sec-websocket-key2:", "sec-websocket-protocol:", "sec-websocket-accept:",
    "sec-websocket-nonce:", "http/1.1 ", "http2-settings:", "accept:",
    "access-control-request-headers:", "if-modified-since:", "if-none-match:", "accept-encoding:",
    "accept-language:", "pragma:", "cache-control:", "authorization:", "cookie:",
    "content-length:", "content-type:", "date:", "range:", "referer:", "sec-websocket-key:",
    "sec-websocket-version:", "sec-websocket-origin:", ":authority:", ":method:", ":path:",
    ":scheme:", ":status:", "accept-charset:", "accept-ranges:", "access-control-allow-origin:",
    "age:", "allow:", "content-disposition:", "content-encoding:", "content-language:",
    "content-location:", "content-range:", "etag:", "expect:", "expires:", "from:", "if-match:",
    "if-range:", "if-unmodified-since:", "last-modified:", "link:", "location:", "max-forwards:",
    "proxy-authenticate:", "proxy-authorization:", "refresh:", "retry-after:", "server:",
    "set-cookie:", "strict-transport-security:", "transfer-encoding:", "user-agent:", "vary:",
    "via:", "www-authenticate:", ""].map ascii

/-- `lextable` -/
def lextable : List UInt8 :=
  [0x67, 0x3d, 0x00, 0x70, 0x3f, 0x00, 0x6f, 0x48, 0x00, 0x68, 0x54, 0x00, 0x63, 0x5d, 0x00, 0x75,
    0x78, 0x00, 0x73, 0x8b, 0x00, 0x0d, 0xc4, 0x00, 0x61, 0x16, 0x01, 0x69, 0x55, 0x01, 0x64, 0xfe,
    0x01, 0x72, 0x01, 0x02, 0x3a, 0x32, 0x02, 0x65, 0xc3, 0x02, 0x66, 0xdf, 0x02, 0x6c, 0x01, 0x03,
    0x6d, 0x24, 0x03, 0x74, 0x8d, 0x03, 0x76, 0xa8, 0x03, 0x77, 0xb5, 0x03, 0x08, 0xe5, 0xf4, 0xa0,
    0x00, 0x00, 0x6f, 0x07, 0x00, 0x72, 0x7d, 0x01, 0x08, 0xf3, 0xf4, 0xa0, 0x00, 0x01, 0x70, 0x07,
    0x00, 0x72, 0x45, 0x00, 0x08, 0xf4, 0xe9, 0xef, 0xee, 0xf3, 0xa0, 0x00, 0x02, 0x6f, 0x07, 0x00,
    0x74, 0xb3, 0x00, 0x08, 0xf3, 0xf4, 0xba, 0x00, 0x03, 0x6f, 0x07, 0x00, 0x61, 0x63, 0x01, 0x08,
    0x6e, 0x07, 0x00, 0x6f, 0x78, 0x01, 0x08, 0x6e, 0x07, 0x00, 0x74, 0x77, 0x01, 0x08, 0xe5, 0xe3,
    0xf4, 0xe9, 0xef, 0xee, 0xba, 0x00, 0x04, 0x70, 0x07, 0x00, 0x73, 0x49, 0x03, 0x08, 0xe7, 0xf2,
    0xe1, 0xe4, 0xe5, 0xba, 0x00, 0x05, 0xe9, 0xe7, 0xe9, 0xee, 0xba, 0x00, 0x06, 0x65, 0x07, 0x00,
    0x74, 0x06, 0x03, 0x08, 0x63, 0x0a, 0x00, 0x72, 0xef, 0x02, 0x74, 0xf2, 0x02, 0x08, 0xad, 0xf7,
    0xe5, 0xe2, 0xf3, 0xef, 0xe3, 0xeb, 0xe5, 0xf4, 0xad, 0x64, 0x19, 0x00, 0x65, 0x20, 0x00, 0x6b,
    0x29, 0x00, 0x70, 0x38, 0x00, 0x61, 0x3f, 0x00, 0x6e, 0x44, 0x00, 0x76, 0x7a, 0x01, 0x6f, 0x80,
    0x01, 0x08, 0xf2, 0xe1, 0xe6, 0xf4, 0xba, 0x00, 0x07, 0x8a, 0x00, 0x08, 0xf8, 0xf4, 0xe5, 0xee,
    0xf3, 0xe9, 0xef, 0xee, 0xf3, 0xba, 0x00, 0x09, 0xe5, 0xf9, 0x31, 0x0a, 0x00, 0x32, 0x0a, 0x00,
    0x3a, 0x53, 0x01, 0x08, 0xba, 0x00, 0x0a, 0xba, 0x00, 0x0b, 0xf2, 0xef, 0xf4, 0xef, 0xe3, 0xef,
    0xec, 0xba, 0x00, 0x0c, 0xe3, 0xe3, 0xe5, 0xf0, 0xf4, 0xba, 0x00, 0x0d, 0xef, 0xee, 0xe3, 0xe5,
    0xba, 0x00, 0x0e, 0xf4, 0xf0, 0x2f, 0x07, 0x00, 0x32, 0x0a, 0x00, 0x08, 0xb1, 0xae, 0xb1, 0xa0,
    0x00, 0x0f, 0xad, 0xf3, 0xe5, 0xf4, 0xf4, 0xe9, 0xee, 0xe7, 0xf3, 0xba, 0x00, 0x10, 0x63, 0x0d,
    0x00, 0x75, 0xac, 0x00, 0x67, 0x7c, 0x01, 0x6c, 0x7d, 0x01, 0x08, 0xe3, 0xe5, 0x70, 0x07, 0x00,
    0x73, 0x0e, 0x00, 0x08, 0xf4, 0x3a, 0x07, 0x00, 0x2d, 0x59, 0x00, 0x08, 0x00, 0x11, 0xf3, 0xad,
    0xe3, 0xef, 0xee, 0xf4, 0xf2, 0xef, 0xec, 0xad, 0x72, 0x07, 0x00, 0x61, 0x47, 0x01, 0x08, 0xe5,
    0xf1, 0xf5, 0xe5, 0xf3, 0xf4, 0xad, 0xe8, 0xe5, 0xe1, 0xe4, 0xe5, 0xf2, 0xf3, 0xba, 0x00, 0x12,
    0xe6, 0xad, 0x6d, 0x0d, 0x00, 0x6e, 0x20, 0x00, 0x72, 0x9d, 0x01, 0x75, 0xa1, 0x01, 0x08, 0x6f,
    0x07, 0x00, 0x61, 0x8d, 0x01, 0x08, 0xe4, 0xe9, 0xe6, 0xe9, 0xe5, 0xe4, 0xad, 0xf3, 0xe9, 0xee,
    0xe3, 0xe5, 0xba, 0x00, 0x13, 0xef, 0xee, 0xe5, 0xad, 0xed, 0xe1, 0xf4, 0xe3, 0xe8, 0xba, 0x00,
    0x14, 0x65, 0x0d, 0x00, 0x6c, 0x14, 0x00, 0x63, 0xea, 0x00, 0x72, 0xf0, 0x00, 0x08, 0xee, 0xe3,
    0xef, 0xe4, 0xe9, 0xee, 0xe7, 0xba, 0x00, 0x15, 0xe1, 0xee, 0xe7, 0xf5, 0xe1, 0xe7, 0xe5, 0xba,
    0x00, 0x16, 0x61, 0x07, 0x00, 0x6f, 0x9d, 0x01, 0x08, 0xe7, 0xed, 0xe1, 0xba, 0x00, 0x17, 0xe3,
    0xe8, 0xe5, 0xad, 0xe3, 0xef, 0xee, 0xf4, 0xf2, 0xef, 0xec, 0xba, 0x00, 0x18, 0xf4, 0xe8, 0xef,
    0xf2, 0xe9, 0xfa, 0xe1, 0xf4, 0xe9, 0xef, 0xee, 0xba, 0x00, 0x19, 0xeb, 0xe9, 0xe5, 0xba, 0x00,
    0x1a, 0xe5, 0xee, 0xf4, 0xad, 0x6c, 0x10, 0x00, 0x74, 0x1e, 0x00, 0x64, 0xbf, 0x00, 0x65, 0xc9,
    0x00, 0x72, 0xe2, 0x00, 0x08, 0x65, 0x0a, 0x00, 0x61, 0xc9, 0x00, 0x6f, 0xcf, 0x00, 0x08, 0xee,
    0xe7, 0xf4, 0xe8, 0xba, 0x00, 0x1b, 0xf9, 0xf0, 0xe5, 0xba, 0x00, 0x1c, 0xe1, 0xf4, 0xe5, 0xba,
    0x00, 0x1d, 0x61, 0x07, 0x00, 0x65, 0x0a, 0x00, 0x08, 0xee, 0xe7, 0xe5, 0xba, 0x00, 0x1e, 0x66,
    0x07, 0x00, 0x74, 0x59, 0x01, 0x08, 0x65, 0x07, 0x00, 0x72, 0x4c, 0x01, 0x08, 0xf2, 0xe5, 0xf2,
    0xba, 0x00, 0x1f, 0x00, 0x20, 0xe5, 0xf2, 0xf3, 0xe9, 0xef, 0xee, 0xba, 0x00, 0x21, 0xf2, 0xe9,
    0xe7, 0xe9, 0xee, 0xba, 0x00, 0x22, 0x61, 0x0d, 0x00, 0x6d, 0x15, 0x00, 0x70, 0x1a, 0x00, 0x73,
    0x1d, 0x00, 0x08, 0xf5, 0xf4, 0xe8, 0xef, 0xf2, 0xe9, 0xf4, 0xf9, 0xba, 0x00, 0x23, 0xe5, 0xf4,
    0xe8, 0xef, 0xe4, 0xba, 0x00, 0x24, 0xe1, 0xf4, 0xe8, 0xba, 0x00, 0x25, 0x63, 0x07, 0x00, 0x74,
    0x0b, 0x00, 0x08, 0xe8, 0xe5, 0xed, 0xe5, 0xba, 0x00, 0x26, 0xe1, 0xf4, 0xf5, 0xf3, 0xba, 0x00,
    0x27, 0xe8, 0xe1, 0xf2, 0xf3, 0xe5, 0xf4, 0xba, 0x00, 0x28, 0xe1, 0xee, 0xe7, 0xe5, 0xf3, 0xba,
    0x00, 0x29, 0xec, 0xec, 0xef, 0xf7, 0xad, 0xef, 0xf2, 0xe9, 0xe7, 0xe9, 0xee, 0xba, 0x00, 0x2a,
    0xe5, 0xba, 0x00, 0x2b, 0xec, 0xef, 0xf7, 0xba, 0x00, 0x2c, 0xe9, 0xf3, 0xf0, 0xef, 0xf3, 0xe9,
    0xf4, 0xe9, 0xef, 0xee, 0xba, 0x00, 0x2d, 0xee, 0xe3, 0xef, 0xe4, 0xe9, 0xee, 0xe7, 0xba, 0x00,
    0x2e, 0xee, 0xe7, 0xf5, 0xe1, 0xe7, 0xe5, 0xba, 0x00, 0x2f, 0xe3, 0xe1, 0xf4, 0xe9, 0xef, 0xee,
    0xba, 0x00, 0x30, 0xe1, 0xee, 0xe7, 0xe5, 0xba, 0x00, 0x31, 0x74, 0x07, 0x00, 0x78, 0x09, 0x00,
    0x08, 0xe1, 0xe7, 0xba, 0x00, 0x32, 0xf0, 0x65, 0x07, 0x00, 0x69, 0x09, 0x00, 0x08, 0xe3, 0xf4,
    0xba, 0x00, 0x33, 0xf2, 0xe5, 0xf3, 0xba, 0x00, 0x34, 0xf2, 0xef, 0xed, 0xba, 0x00, 0x35, 0xf4,
    0xe3, 0xe8, 0xba, 0x00, 0x36, 0xe1, 0xee, 0xe7, 0xe5, 0xba, 0x00, 0x37, 0xee, 0xed, 0xef, 0xe4,
    0xe9, 0xe6, 0xe9, 0xe5, 0xe4, 0xad, 0xf3, 0xe9, 0xee, 0xe3, 0xe5, 0xba, 0x00, 0x38, 0x61, 0x0a,
    0x00, 0x69, 0x15, 0x00, 0x6f, 0x17, 0x00, 0x08, 0xf3, 0xf4, 0xad, 0xed, 0xef, 0xe4, 0xe9, 0xe6,
    0xe9, 0xe5, 0xe4, 0xba, 0x00, 0x39, 0xee, 0xeb, 0xba, 0x00, 0x3a, 0xe3, 0xe1, 0xf4, 0xe9, 0xef,
    0xee, 0xba, 0x00, 0x3b, 0xe1, 0xf8, 0xad, 0xe6, 0xef, 0xf2, 0xf7, 0xe1, 0xf2, 0xe4, 0xf3, 0xba,
    0x00, 0x3c, 0xf8, 0xf9, 0xad, 0xe1, 0xf5, 0xf4, 0xe8, 0x65, 0x07, 0x00, 0x6f, 0x0e, 0x00, 0x08,
    0xee, 0xf4, 0xe9, 0xe3, 0xe1, 0xf4, 0xe5, 0xba, 0x00, 0x3d, 0xf2, 0xe9, 0xfa, 0xe1, 0xf4, 0xe9,
    0xef, 0xee, 0xba, 0x00, 0x3e, 0xe5, 0xf3, 0xe8, 0xba, 0x00, 0x3f, 0xf2, 0xf9, 0xad, 0xe1, 0xe6,
    0xf4, 0xe5, 0xf2, 0xba, 0x00, 0x40, 0xf6, 0xe5, 0xf2, 0xba, 0x00, 0x41, 0xad, 0xe3, 0xef, 0xef,
    0xeb, 0xe9, 0xe5, 0xba, 0x00, 0x42, 0xf2, 0xe9, 0xe3, 0xf4, 0xad, 0xf4, 0xf2, 0xe1, 0xee, 0xf3,
    0xf0, 0xef, 0xf2, 0xf4, 0xad, 0xf3, 0xe5, 0xe3, 0xf5, 0xf2, 0xe9, 0xf4, 0xf9, 0xba, 0x00, 0x43,
    0xf2, 0xe1, 0xee, 0xf3, 0xe6, 0xe5, 0xf2, 0xad, 0xe5, 0xee, 0xe3, 0xef, 0xe4, 0xe9, 0xee, 0xe7,
    0xba, 0x00, 0x44, 0xe5, 0xf2, 0xad, 0xe1, 0xe7, 0xe5, 0xee, 0xf4, 0xba, 0x00, 0x45, 0x61, 0x07,
    0x00, 0x69, 0x09, 0x00, 0x08, 0xf2, 0xf9, 0xba, 0x00, 0x46, 0xe1, 0xba, 0x00, 0x47, 0xf7, 0xf7,
    0xad, 0xe1, 0xf5, 0xf4, 0xe8, 0xe5, 0xee, 0xf4, 0xe9, 0xe3, 0xe1, 0xf4, 0xe5, 0xba, 0x00, 0x48]

/-- `t` is the name of the token `n`. -/
def IsName (n : ℕ) (t : List UInt8) : Prop :=
  headerNames[n]? = some t ∧ t ≠ []

set_option maxRecDepth 100000 in
theorem minilex_headerNames : minilex headerNames = some lextable := by
  decide +kernel

theorem headerNames_lexable : Lexable headerNames where
  prefixFree := by
    unfold Lexicon.PrefixFree
    decide +kernel
  length_le := by decide +kernel
  printable := by
    have hall : (headerNames.all fun t => t.all fun c => 8 < c ∧ c < 128) = true := by
      decide +kernel
    simpa using hall
  nonempty := ⟨headerNames.head (by decide +kernel), List.head_mem _, by decide +kernel⟩

theorem lexFrom_lextable (s : List UInt8) :
    (∀ n rest, lexFrom lextable 0 s = .token n rest ↔
      ∃ u, s = u ++ rest ∧ IsName n (u.map tolower)) ∧
    ((∃ pos, lexFrom lextable 0 s = .more pos) ↔
      ∃ n t, IsName n t ∧ s.map tolower <+: t ∧ s.map tolower ≠ t) := by
  obtain ⟨l, path, r, h, henc, hstate⟩ := headerNames_lexable.encoded minilex_headerNames []
  rw [List.append_nil] at henc
  have hnot : ∀ n, ¬ Lexicon.Named headerNames n (path 0) := fun n hn => hn.2 h.path_zero
  have hlex := h.lexFrom_spelled headerNames_lexable.unambiguous henc s h.next_pos hnot hstate
  simp only [h.path_zero, List.nil_append, henc.zero] at hlex
  exact hlex

end Lws

end MySocket
