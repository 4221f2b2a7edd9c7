import ProtoWire.Main
import ProtoWire.Proofs.Generator.Apart
import ProtoWire.Proofs.Generator.Boxing
import ProtoWire.Proofs.Generator.Member
import ProtoWire.Proofs.Generator.Protocol
import ProtoWire.Proofs.Generator.Reorder
import ProtoWire.Proofs.Generator.Variant
import ProtoWire.Proofs.Message.Measured
import ProtoWire.Proofs.Message.Normal
import ProtoWire.Proofs.Message.Packing
import ProtoWire.Proofs.Message.Presize
import ProtoWire.Proofs.Message.Session
import ProtoWire.Proofs.Message.Truncation
import ProtoWire.Proofs.Message.Unambiguous
import ProtoWire.Proofs.Message.Unset
import ProtoWire.Proofs.Repeated.Growth
import ProtoWire.Proofs.Repeated.Refine
import ProtoWire.Proofs.Text.Unescape
import ProtoWire.Proofs.Varint.Canonical
import ProtoWire.Proofs.Wire.Grammar
import ProtoWire.Proofs.Wire.Stream
import ProtoWire.Repeated.Element
