import OffLineProgrammer.Lib.ByteMem

/-!
# Descriptors, from usb_desc.c

The tables a host reads over the control endpoint. The table of strings has four
entries; a fifth is not refused and stands for whatever lies after the table.
-/

namespace OffLineProgrammer.UsbCore
set_option autoImplicit false
open OffLineProgrammer.Lib

abbrev DEF_USBD_UEP0_SIZE : Nat := 64
abbrev USBD_SIZE_CONFIG_DESC : Nat := 106

/-- `USBD_DeviceDescriptor` -/
def USBD_DeviceDescriptor : List Byte :=
  [18, 0x01, 0x00, 0x02, 0xEF, 0x02, 0x01, 64, 0x86, 0x1A, 0x0C, 0xFE, 0x00, 0x02, 0x01, 0x02, 0x03, 0x01]

/-- `USBD_ConfigDescriptor` -/
def USBD_ConfigDescriptor : List Byte :=
  -- the configuration
  [0x09, 0x02, 106, 0, 0x03, 0x01, 0x00, 0x80, 0x32,
  -- the association of the first two interfaces, and interface 0
    0x08, 0x0B, 0x00, 0x02, 0x02, 0x02, 0x01, 0x03,
    0x09, 0x04, 0x00, 0x00, 0x01, 0x02, 0x02, 0x01, 0x03,
    0x05, 0x24, 0x00, 0x10, 0x01,
    0x05, 0x24, 0x01, 0x00, 0x01,
    0x04, 0x24, 0x02, 0x02,
    0x05, 0x24, 0x06, 0x00, 0x01,
    0x07, 0x05, 0x81, 0x03, 0x40, 0x00, 0x01,
  -- interface 1
    0x09, 0x04, 0x01, 0x00, 0x02, 0x0A, 0x02, 0x01, 0x03,
    0x07, 0x05, 0x02, 0x02, 0x40, 0x00, 0x00,
    0x07, 0x05, 0x83, 0x02, 0x40, 0x00, 0x00,
  -- the association of the disk, and interface 2
    0x08, 0x0B, 0x02, 0x01, 0x08, 0x06, 0x50, 0x00,
    0x09, 0x04, 0x02, 0x00, 0x02, 0x08, 0x06, 0x50, 0x00,
    0x07, 0x05, 0x84, 0x02, 0x40, 0x00, 0x00,
    0x07, 0x05, 0x05, 0x02, 0x40, 0x00, 0x00]

/-- `USBD_StringLangID` -/
def USBD_StringLangID : List Byte := [4, 0x03, 0x09, 0x04]

/-- `USBD_StringVendor` -/
def USBD_StringVendor : List Byte := [14, 0x03, 0x77, 0, 0x63, 0, 0x68, 0, 0x2E, 0, 0x63, 0, 0x6C, 0]

/-- `USBD_StringProduct` -/
def USBD_StringProduct : List Byte :=
  [22, 0x03, 0x55, 0, 0x53, 0, 0x42, 0, 0x20, 0, 0x53, 0, 0x65, 0, 0x72, 0, 0x69, 0, 0x61, 0, 0x6C, 0]

/-- `USBD_StringSerial`, as it is at the start: it is not constant. -/
def USBD_StringSerial : List Byte :=
  [22, 0x03, 0x43, 0, 0x48, 0, 0x33, 0, 0x32, 0, 0x56, 0, 0x2C, 0, 0x4C, 0, 0x69, 0, 0x6E, 0, 0x6B, 0]

/-- The descriptors; `stray` is what `String_Descriptor[4]` reads. -/
inductive Descriptor where
  | device
  | config
  | langId
  | vendor
  | product
  | serial
  | stray
  deriving DecidableEq

end OffLineProgrammer.UsbCore
