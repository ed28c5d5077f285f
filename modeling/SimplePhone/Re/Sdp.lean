import SimplePhone.Re.Sipsess
import SimplePhone.Re.Uri

/-! The session descriptions of a call: the formats that each side can send and receive, the text
that they are written to, and how the lists of the two sides are aligned. -/
namespace SimplePhone.Re

def ebadmsg : Nat := 74

def enotsup : Nat := 95

def rtpDynptStart : Nat := 96

def rtpDynptEnd : Nat := 127

/-- `enum sdp_dir`, whose values are sets of two bits. -/
structure SdpDir where
  recv : Bool
  send : Bool
deriving DecidableEq

namespace SdpDir

def inactive : SdpDir := ⟨false, false⟩

def recvonly : SdpDir := ⟨true, false⟩

def sendonly : SdpDir := ⟨false, true⟩

def sendrecv : SdpDir := ⟨true, true⟩

/-- `sdp_dir_name` -/
def name (dir : SdpDir) : Str :=
  match dir.recv, dir.send with
  | false, false => utf8 "inactive"
  | true, false => utf8 "recvonly"
  | false, true => utf8 "sendonly"
  | true, true => utf8 "sendrecv"

/-- `&` of two directions. -/
def and (dir dir' : SdpDir) : SdpDir := ⟨dir.recv && dir'.recv, dir.send && dir'.send⟩

end SdpDir

/-- `isspace` -/
def isSpace (b : UInt8) : Bool := b = 32 ∨ 9 ≤ b ∧ b ≤ 13

/-- `atoi`, which C defines for the numbers of an `int` only. -/
def atoi (s : Str) : Int :=
  match s.dropWhile isSpace with
  | 45 :: t => -(value (t.takeWhile digit.has))
  | 43 :: t => value (t.takeWhile digit.has)
  | t => value (t.takeWhile digit.has)

/-! ### Addresses -/

/-- What the system makes of the text of an address: `inet_pton` for either family, and
`getaddrinfo` for the numeric address of an interface. -/
class Inet where
  inetPton4 : Str → Bool
  inetPton6 : Str → Bool
  getaddrinfo : Str → Bool

/-- `sa_pton` as it is built here, without sockets of UNIX: whether it finds an address. -/
def saPton [Inet] (addr : Str) : Bool :=
  Inet.inetPton4 addr ||
    if (utf8 "fe80:").isPrefixOf addr && addr.contains 37 then Inet.getaddrinfo addr
    else Inet.inetPton6 addr

/-- `struct sa`, by its port; without a family it has none. -/
inductive Sa where
  | unspec
  | inet (port : Nat)
deriving DecidableEq

namespace Sa

/-- `sa_init`, with `AF_INET`. -/
def init : Sa := .inet 0

/-- `sa_port` -/
def port : Sa → Nat
  | .unspec => 0
  | .inet port => port

/-- `sa_set_port` -/
def setPort (port : Nat) : Sa → Sa
  | .unspec => .unspec
  | .inet _ => .inet port

/-- `sa_set`, of what fits into its buffer. A name of a host leaves nothing of the address that
was there. -/
def set [Inet] (addr : Str) (port : Nat) : Sa :=
  if saPton ((addr.take 63).takeWhile (· ≠ 0)) then .inet port else .unspec

theorem port_setPort_zero (sa : Sa) : (sa.setPort 0).port = 0 := by
  cases sa <;> rfl

theorem port_set_zero [Inet] (addr : Str) : (set addr 0).port = 0 := by
  unfold set
  split <;> rfl

end Sa

/-! ### Sessions -/

/-- `struct sdp_format`, without the handlers for `fmtp` attributes, which no codec here has. -/
structure SdpFormat where
  id : Str
  params : Option Str
  rparams : Option Str
  name : Option Str
  /-- the codec, by its place in the list of all -/
  data : Option Nat
  sup : Bool
  pt : Int
  srate : Nat
  ch : Nat
deriving DecidableEq

/-- `struct sdp_media`, without its bandwidths and what it has of other addresses. -/
structure SdpMedia where
  lfmtl : List SdpFormat
  rfmtl : List SdpFormat
  lattrl : List (Str × Option Str)
  /-- the port of `laddr` -/
  lport : Nat
  raddr : Sa
  /-- the port of `laddr_rtcp` -/
  lportRtcp : Nat
  name : Str
  proto : Str
  protov : List Str
  uproto : Option Str
  ldir : SdpDir
  rdir : SdpDir
  fmtIgnore : Bool
  disabled : Bool
  dynpt : Nat
deriving DecidableEq

structure SdpSession where
  lmedial : List SdpMedia
  medial : List SdpMedia
  lattrl : List (Str × Option Str)
  /-- `laddr`, as `%j` prints it: a numeric address -/
  laddr : Str
  ipver : Nat
  id : Nat
  ver : Nat
  rdir : SdpDir
deriving DecidableEq

def SdpMedia.rport (m : SdpMedia) : Nat := m.raddr.port

/-! ### Formats -/

/-- `str_casecmp`, for which two missing strings are the same. -/
def strCasecmp : Option Str → Option Str → Bool
  | none, none => true
  | some s, some t => sameCaseless s t
  | _, _ => false

namespace SdpFormat

/-- `sdp_format_radd` -/
def radd (id : Str) : SdpFormat where
  id := id
  params := none
  rparams := none
  name := none
  data := none
  sup := false
  pt := atoi id
  srate := 0
  ch := 0

/-- `sdp_format_cmp`: below the dynamic payload types the number tells the format. -/
def cmp (fmt1 fmt2 : SdpFormat) : Bool :=
  if fmt1.pt < rtpDynptStart ∧ fmt2.pt < rtpDynptStart then fmt1.id = fmt2.id
  else strCasecmp fmt1.name fmt2.name && fmt1.srate == fmt2.srate && fmt1.ch == fmt2.ch

end SdpFormat

namespace SdpMedia

/-- `sdp_media_add` -/
def add (name : Str) (port : Nat) (proto : Str) : SdpMedia where
  lfmtl := []
  rfmtl := []
  lattrl := []
  lport := port
  raddr := .init
  lportRtcp := 0
  name := name
  proto := proto
  protov := []
  uproto := none
  ldir := .sendrecv
  rdir := .sendrecv
  fmtIgnore := false
  disabled := false
  dynpt := rtpDynptStart

/-- `sdp_media_radd` -/
def radd (name proto : Str) : SdpMedia := { add name 0 proto with disabled := true }

/-- `sdp_media_rreset` -/
def rreset (m : SdpMedia) : SdpMedia :=
  { m with raddr := .init, rfmtl := [], rdir := .sendrecv }

/-- `sdp_format_add`; without an `id` the next dynamic payload type is taken, while there is one. -/
def formatAdd (id : Option Str) (name : Str) (srate ch : Nat) (data : Option Nat)
    (params : Option Str) (m : SdpMedia) : Option SdpMedia :=
  match id with
  | some id =>
      some { m with
        lfmtl := m.lfmtl ++ [⟨id, params, none, some name, data, true, atoi id, srate, ch⟩] }
  | none =>
      if rtpDynptEnd < m.dynpt then none
      else
        let id := decimal m.dynpt
        some { m with
          lfmtl := m.lfmtl ++ [⟨id, params, none, some name, data, true, atoi id, srate, ch⟩]
          dynpt := m.dynpt + 1 }

/-- `sdp_media_proto_cmp`, with the media line as it leaves it. -/
def protoCmp (proto : Str) (update : Bool) (m : SdpMedia) : Bool × SdpMedia :=
  if proto = m.proto then (true, m)
  else if m.protov.any fun p => proto = p then
    (true, if update then { m with proto := proto } else m)
  else (false, m)

/-- `sdp_media_lformat` -/
def lformat (m : SdpMedia) (pt : Int) : Option SdpFormat := m.lfmtl.find? fun fmt => fmt.pt = pt

/-- `sdp_media_rformat` -/
def rformat (m : SdpMedia) (name : Option Str) : Option SdpFormat :=
  if m.rport = 0 then none
  else m.rfmtl.find? fun fmt => fmt.sup && (name.isNone || strCasecmp name fmt.name)

/-- `sdp_media_dir` -/
def dir (m : SdpMedia) : SdpDir := m.ldir.and m.rdir

/-! ### The alignment of formats -/

/-- The local and remote formats so far, and the greatest payload type that was taken over. -/
structure Alignment where
  lfmtl : List SdpFormat
  rfmtl : List SdpFormat
  ptOffer : Int

/-- One remote format; from an offer its payload type is used, and its place. -/
def Alignment.step (offer : Bool) (a : Alignment) (rfmt : SdpFormat) : Alignment :=
  match a.lfmtl.span fun lfmt => !lfmt.cmp rfmt with
  | (_, []) => { a with rfmtl := a.rfmtl ++ [{ rfmt with sup := false }] }
  | (before, lfmt :: after) =>
      let found := { lfmt with rparams := rfmt.params, sup := true }
      let rfmtl := a.rfmtl ++ [{ rfmt with sup := true, data := lfmt.data }]
      if offer then
        let found := { found with id := rfmt.id, pt := atoi rfmt.id }
        ⟨before ++ after ++ [found], rfmtl, if a.ptOffer < found.pt then found.pt else a.ptOffer⟩
      else ⟨before ++ found :: after, rfmtl, a.ptOffer⟩

/-- The formats that stay, those that are put at the end, and the greatest payload type. -/
abbrev Reordering := List SdpFormat × List SdpFormat × Int

/-- One local format, from the last to the first. -/
def reorderStep (lfmt : SdpFormat) : Reordering → Reordering
  | (kept, moved, ptOffer) =>
      if lfmt.sup then (lfmt :: kept, moved, ptOffer)
      else if (rtpDynptStart : Int) ≤ lfmt.pt then
        (kept, moved ++ [{ lfmt with pt := ptOffer + 1, id := decimal (ptOffer + 1) }], ptOffer + 1)
      else (kept, moved ++ [lfmt], ptOffer)

def reorder (lfmtl : List SdpFormat) (ptOffer : Int) : List SdpFormat :=
  let r := lfmtl.foldr reorderStep ([], [], ptOffer)
  r.1 ++ r.2.1

/-- `sdp_media_align_formats` -/
def alignFormats (offer : Bool) (m : SdpMedia) : SdpMedia :=
  if m.disabled ∨ m.rport = 0 ∨ m.fmtIgnore then m
  else
    let lfmtl := m.lfmtl.map fun lfmt => { lfmt with rparams := none, sup := false }
    let a := m.rfmtl.foldl (Alignment.step offer) ⟨lfmtl, [], rtpDynptStart⟩
    { m with
      lfmtl := if offer then reorder a.lfmtl a.ptOffer else a.lfmtl
      rfmtl := a.rfmtl }

end SdpMedia

/-! ### Writing -/

/-- A line `t=v`. -/
abbrev SdpLine := UInt8 × Str

def blank1 : Str := [32]

def slash : Str := [47]

/-- `str_isset` -/
def isset (s : Option Str) : Bool := s.any fun s => !s.isEmpty

def attrLine (name value : Str) : SdpLine := (97, name ++ colon :: value)

/-- `sdp_attr_print` -/
def attrPrint : Str × Option Str → SdpLine
  | (name, some value) => attrLine name value
  | (name, none) => (97, name)

/-- The value of `rtpmap`, for a format with a name. -/
def rtpmapValue (fmt : SdpFormat) (name : Str) : Str :=
  fmt.id ++ blank1 ++ name ++ slash ++ decimal fmt.srate ++
    if 1 < fmt.ch then slash ++ decimal fmt.ch else []

namespace SdpMedia

/-- Only a profile of RTP maps formats to names. -/
def isRtp (m : SdpMedia) : Bool :=
  (utf8 "RTP/").isPrefixOf m.proto || (strstr (utf8 "/RTP/") m.proto).isSome

def formatLines (m : SdpMedia) (offer : Bool) (fmt : SdpFormat) : List SdpLine :=
  match fmt.name with
  | some name =>
      if name.isEmpty || !(fmt.sup || offer) then []
      else
        (if m.isRtp then [attrLine (utf8 "rtpmap") (rtpmapValue fmt name)] else []) ++
          if isset fmt.params then
            [attrLine (utf8 "fmtp") (fmt.id ++ blank1 ++ fmt.params.getD [])]
          else []
  | none => []

def mediaLine (m : SdpMedia) (port : Nat) (proto : Str) (fmts : List Str) : SdpLine :=
  (109, m.name ++ blank1 ++ decimal port ++ blank1 ++ proto ++ fmts.flatMap (blank1 ++ ·))

/-- Of a line that is not rejected. -/
def lines (m : SdpMedia) (offer disabled : Bool) : List SdpLine :=
  m.mediaLine m.lport m.proto
      ((m.lfmtl.filter fun fmt => fmt.sup || offer).map SdpFormat.id) ::
    m.lfmtl.flatMap (m.formatLines offer) ++
    (if m.lportRtcp = 0 then [] else [attrLine (utf8 "rtcp") (decimal m.lportRtcp)]) ++
    [(97, (if disabled then .inactive else if offer then m.ldir else m.dir : SdpDir).name)] ++
    m.lattrl.map attrPrint

/-- `media_encode` -/
def encode (offer : Bool) (m : SdpMedia) : List SdpLine :=
  let supc := m.lfmtl.any SdpFormat.sup
  if supc ∧ (m.disabled ∨ offer = false ∧ m.rport = 0) then m.lines offer true
  else if supc = false ∨ offer = false ∧ m.uproto.isSome then
    [m.mediaLine 0 (if isset m.uproto then m.uproto.getD [] else m.proto) [utf8 "0"]]
  else m.lines offer false

end SdpMedia

def crlf : Str := [13, 10]

def SdpLine.text (l : SdpLine) : Str := l.1 :: 61 :: l.2 ++ crlf

def utf8IpV (ipver : Nat) : Str := utf8 "IN IP" ++ decimal ipver ++ blank1

namespace SdpSession

def headLines (s : SdpSession) : List SdpLine :=
  [(118, utf8 "0"),
    (111, utf8 "- " ++ decimal s.id ++ blank1 ++ decimal s.ver ++ blank1 ++ utf8IpV s.ipver ++
      s.laddr),
    (115, utf8 "-"), (99, utf8IpV s.ipver ++ s.laddr), (116, utf8 "0 0")] ++
    s.lattrl.map attrPrint

/-- An offer is about all media lines that are not disabled. -/
def offered (s : SdpSession) : SdpSession :=
  { s with
    lmedial := s.lmedial.filter SdpMedia.disabled
    medial := s.medial ++ s.lmedial.filter fun m => !m.disabled }

/-- `sdp_encode` -/
def encode (offer : Bool) (s : SdpSession) : Str × SdpSession :=
  let head := s.headLines
  let s := if offer then s.offered else s
  ((head ++ s.medial.flatMap (SdpMedia.encode offer)).flatMap SdpLine.text,
    { s with ver := s.ver + 1 })

end SdpSession

/-! ### Reading -/

/-- Where `sdp_decode` is in a session: the media lines that it has been through, the one that it
is at, and those to come. -/
structure SdpCursor where
  seen : List SdpMedia
  cur : Option SdpMedia
  next : List SdpMedia
  lmedial : List SdpMedia
  /-- of the session, as is `rdir` -/
  raddr : Sa
  rdir : SdpDir
deriving DecidableEq

/-- `[^:]+:[^]+` -/
def attrItems : List Item := [.cls notColon .plus, .chr colon, .cls anything .plus]

/-- `[^ ]+ [^]*` -/
def fmtpItems : List Item := [.cls (.except " ") .plus, .chr 32, .cls anything .star]

/-- `[^ ]+ [^/]+/[0-9]+[/]*[^]*` -/
def rtpmapItems : List Item :=
  [.cls (.except " ") .plus, .chr 32, .cls (.except "/") .plus, .chr 47, .cls digit .plus,
    .cls (.of "/") .star, .cls anything .star]

/-- `[a-z]` -/
def letter : Class := ⟨false, false, [(97, 122)]⟩

/-- `[a-z]+ [^ ]+ [^ ]+[^]*` -/
def mediaItems : List Item :=
  [.cls letter .plus, .chr 32, .cls (.except " ") .plus, .chr 32, .cls (.except " ") .plus,
    .cls anything .star]

/-- ` [^ ]+` -/
def fmtItems : List Item := [.chr 32, .cls (.except " ") .plus]

/-- `[^:]+:[0-9]+` -/
def bandwidthItems : List Item := [.cls notColon .plus, .chr colon, .cls digit .plus]

/-- `IN IP4 [^ ]+` and `IN IP6 [^ ]+` -/
def connItems (ipver : UInt8) : List Item :=
  literal (utf8 "IN IP") ++ [.chr ipver, .chr 32, .cls (.except " ") .plus]

/-- The address of the first match of `IN IP[46]1 [^ ]+`, where `[46]1` is one character. -/
def connAddr : Str → Option Str
  | [] => none
  | b :: pl =>
      match run (connItems 52) (b :: pl), run (connItems 54) (b :: pl) with
      | .matched [addr] _, _ => some addr
      | _, .matched [addr] _ => some addr
      | .again, .again => connAddr pl
      | _, _ => none

/-- The formats of a media line, of which each takes at least two characters. -/
def fmtIds : Nat → Str → List Str
  | 0, _ => []
  | n + 1, fmtv =>
      match reRegex fmtItems fmtv with
      | some ([fmt], rest) => fmt :: fmtIds n rest
      | _ => []

/-- `sdp_format_find`, and what becomes of the format. -/
def updateFormat (id : Str) (f : SdpFormat → SdpFormat) : List SdpFormat → List SdpFormat
  | [] => []
  | fmt :: fmtl => if fmt.id = id then f fmt :: fmtl else fmt :: updateFormat id f fmtl

namespace SdpMedia

def updateRemote (id : Str) (f : SdpFormat → SdpFormat) (m : SdpMedia) : SdpMedia :=
  { m with rfmtl := updateFormat id f m.rfmtl }

/-- `attr_decode_fmtp` -/
def attrDecodeFmtp (pl : Str) (m : SdpMedia) : SdpMedia × Nat :=
  match reRegex fmtpItems pl with
  | some ([id, params], _) =>
      (m.updateRemote id fun fmt => { fmt with params := some params }, 0)
  | _ => (m, ebadmsg)

/-- `attr_decode_rtpmap` -/
def attrDecodeRtpmap (pl : Str) (m : SdpMedia) : SdpMedia × Nat :=
  match reRegex rtpmapItems pl with
  | some ([id, name, srate, _, ch], _) =>
      (m.updateRemote id fun fmt => { fmt with
        name := some name
        srate := plU32 srate
        ch := if ch = [] then 1 else plU32 ch % 2 ^ 8 }, 0)
  | _ => (m, ebadmsg)

end SdpMedia

namespace SdpCursor

/-- On the media line, or nothing where there is none. -/
def onMedia (c : SdpCursor) (f : SdpMedia → SdpMedia × Nat) : SdpCursor × Nat :=
  match c.cur with
  | none => (c, 0)
  | some m => ({ c with cur := some (f m).1 }, (f m).2)

def setDir (dir : SdpDir) (c : SdpCursor) : SdpCursor :=
  match c.cur with
  | none => { c with rdir := dir }
  | some m => { c with cur := some { m with rdir := dir } }

/-- `attr_decode_rtcp`, whose address is not kept. -/
def attrDecodeRtcp (pl : Str) (c : SdpCursor) : SdpCursor × Nat :=
  c.onMedia fun m => (m, if (reRegex [.cls digit .plus] pl).isSome then 0 else ebadmsg)

/-- The name and the value of an attribute. -/
def attrSplit (pl : Str) : Str × Str :=
  match reRegex attrItems pl with
  | some ([name, val], _) => (name, val)
  | _ => (pl, [])

/-- What it does not know it keeps for others. -/
def attrApply (name val : Str) (c : SdpCursor) : SdpCursor × Nat :=
  if name = utf8 "fmtp" then c.onMedia (SdpMedia.attrDecodeFmtp val)
  else if name = utf8 "inactive" then (c.setDir .inactive, 0)
  else if name = utf8 "recvonly" then (c.setDir .sendonly, 0)
  else if name = utf8 "rtcp" then c.attrDecodeRtcp val
  else if name = utf8 "rtpmap" then c.onMedia (SdpMedia.attrDecodeRtpmap val)
  else if name = utf8 "sendonly" then (c.setDir .recvonly, 0)
  else if name = utf8 "sendrecv" then (c.setDir .sendrecv, 0)
  else (c, 0)

/-- `attr_decode` -/
def attrDecode (pl : Str) (c : SdpCursor) : SdpCursor × Nat :=
  c.attrApply (attrSplit pl).1 (attrSplit pl).2

/-- `sdp_media_find`, with the media lines that are left. -/
def mediaFind (name proto : Str) : List SdpMedia → Option (SdpMedia × List SdpMedia)
  | [] => none
  | m :: ms =>
      if name = m.name ∧ (m.protoCmp proto true).1 then some ((m.protoCmp proto true).2, ms)
      else (mediaFind name proto ms).map fun r => (r.1, m :: r.2)

/-- The rest of `media_decode`. -/
def enter (m : SdpMedia) (port fmtv : Str) (next lmedial : List SdpMedia) (c : SdpCursor) :
    SdpCursor :=
  { c with
    seen := c.seen ++ c.cur.toList
    cur := some { m with
      rfmtl := m.rfmtl ++ (fmtIds fmtv.length fmtv).map SdpFormat.radd
      raddr := c.raddr.setPort (if m.uproto.isSome then 0 else plU32 port % 2 ^ 16)
      rdir := if plU32 port = 0 then .inactive else c.rdir }
    next := next
    lmedial := lmedial }

/-- `media_decode` -/
def mediaDecode (offer : Bool) (pl : Str) (c : SdpCursor) : SdpCursor × Nat :=
  match reRegex mediaItems pl with
  | some ([name, port, proto, fmtv], _) =>
      match c.next with
      | [] =>
          if offer then
            match mediaFind name proto c.lmedial with
            | some (m, lmedial) => (c.enter { m with uproto := none } port fmtv [] lmedial, 0)
            | none => (c.enter (.radd name proto) port fmtv [] c.lmedial, 0)
          else (c, eproto)
      | m :: next =>
          if name = m.name then
            let (same, m) := m.protoCmp proto offer
            let m := { m with uproto := if same then none else some proto }
            (c.enter m port fmtv next c.lmedial, 0)
          else (c, if offer then enotsup else eproto)
  | _ => (c, ebadmsg)

/-- `conn_decode`, for the address of the media line or of the session. -/
def connDecode [Inet] (pl : Str) (c : SdpCursor) : SdpCursor × Nat :=
  match connAddr pl with
  | none => (c, ebadmsg)
  | some addr =>
      match c.cur with
      | none => ({ c with raddr := .set addr c.raddr.port }, 0)
      | some m => ({ c with cur := some { m with raddr := .set addr m.rport } }, 0)

def line [Inet] (offer : Bool) (type : UInt8) (val : Str) (c : SdpCursor) : SdpCursor × Nat :=
  if type = 97 then c.attrDecode val
  else if type = 98 then (c, if (reRegex bandwidthItems val).isSome then 0 else ebadmsg)
  else if type = 99 then c.connDecode val
  else if type = 109 then c.mediaDecode offer val
  else if type = 118 then (c, if val = utf8 "0" then 0 else enosys)
  else (c, 0)

/-- The loop of `sdp_decode`, with the line that it is in. -/
def scan [Inet] (offer : Bool) : Option SdpLine → SdpCursor → Str → SdpCursor × Nat
  | l, c, [] => (c, if l.isSome then ebadmsg else 0)
  | l, c, b :: pl =>
      if b = 13 ∨ b = 10 then
        match l with
        | none => scan offer none c pl
        | some (type, val) =>
            match c.line offer type val with
            | (c, 0) => scan offer none c pl
            | (c, err) => (c, err)
      else
        match l with
        | some (type, val) => scan offer (some (type, val ++ [b])) c pl
        | none =>
            match pl with
            | 61 :: pl =>
                -- a type of zero is no type
                if b = 0 then scan offer none c pl else scan offer (some (b, [])) c pl
            | _ => (c, ebadmsg)

end SdpCursor

namespace SdpSession

/-- `sdp_session_rreset` and what follows it, at the start of `sdp_decode`. -/
def start (s : SdpSession) : SdpCursor where
  seen := []
  cur := none
  next := s.medial.map SdpMedia.rreset
  lmedial := s.lmedial
  raddr := .init
  rdir := .sendrecv

def back (s : SdpSession) (c : SdpCursor) : SdpSession :=
  { s with medial := c.seen ++ c.cur.toList ++ c.next, lmedial := c.lmedial, rdir := c.rdir }

/-- `sdp_decode` before it aligns the formats. -/
def read [Inet] (offer : Bool) (pl : Str) (s : SdpSession) : SdpSession × Nat :=
  let r := SdpCursor.scan offer none s.start pl
  (s.back r.1, r.2)

/-- `sdp_decode` -/
def decode [Inet] (offer : Bool) (pl : Str) (s : SdpSession) : SdpSession × Nat :=
  match s.read offer pl with
  | (s, 0) => ({ s with medial := s.medial.map (SdpMedia.alignFormats offer) }, 0)
  | (s, err) => (s, err)

end SdpSession

end SimplePhone.Re
